/-
  Session/Shadow.lean --- the connection as one stream sees it.

  The shadow of a state for the stream with id `t` is the state of a connection on
  which the frames of all other streams were never read.  Every step casts a shadow:
  the same step, where it is one of the stream or of the connection as a whole, and
  no step where it is one of another stream.
-/
import SpdyStream.Foundation.Simulation
import SpdyStream.Session.OneStream

set_option autoImplicit false

namespace SpdyStream.Session

open SpdyStream.Foundation
open SpdyStream.Framing

variable {H : Type}

/-! ## What is seen of one stream -/

/-- SYN_STREAM, SYN_REPLY, HEADERS, DATA and RST_STREAM. -/
def isStreamFrame : Frame H → Bool
  | .synStream _ => true
  | f => isRoutable f

/-- The frame is no frame of a stream other than `t`. -/
def keeps (t : UInt32) (f : Frame H) : Bool := !isStreamFrame f || f.target = t

/-- What is done to a stream. -/
inductive Effect (H : Type) where
  /-- its SYN_STREAM is accepted -/
  | accepted (f : SynStreamFrame H)
  /-- a worker has done an operation: the handler is started, a payload is pushed, the
  stream is closed or removed, `replied` is set, the writers are notified -/
  | worked (op : WorkerOp)
  /-- a payload is put into the channel or dropped -/
  | pushed (data : Bytes) (kept : Bool)
  /-- its id is removed from the map, in which it was or was not -/
  | removed (found : Bool)
  /-- the teardown closes it -/
  | swept
  /-- `read_data` returns a payload -/
  | delivered (data : Bytes)
  /-- the read task sends an RST_STREAM for its id -/
  | answered (status : RstStatus)
  deriving DecidableEq

/-- What an event shows of stream `o` with id `t`. -/
def Event.effects (o : Nat) (t : UInt32) : Event H → List (Effect H)
  | .accepted o' f => if o' = o then [.accepted f] else []
  | .worked o' op => if o' = o then [.worked op] else []
  | .pushed o' data kept => if o' = o then [.pushed data kept] else []
  | .removed o' found => if o' = o then [.removed found.isSome] else []
  | .delivered o' data => if o' = o then [.delivered data] else []
  | .enqueued .readTask (.rstStream r) => if r.streamId = t then [.answered r.status] else []
  | _ => []

/-- What a step does to stream `o` with id `t`. -/
def stepEffects (o : Nat) (t : UInt32) (x : TakenStep H) : List (Effect H) :=
  (if x.before.sweeps o x.action then [.swept] else []) ++ x.events.flatMap (Event.effects o t)

/-- The effects on stream `o` with id `t`, in order. -/
def effectsOn (o : Nat) (t : UInt32) (hist : List (TakenStep H)) : List (Effect H) :=
  hist.flatMap (stepEffects o t)

/-- The frames that were read. -/
def framesRead (hist : List (TakenStep H)) : List (Frame H) :=
  (hist.flatMap Machine.Taken.events).flatMap Event.frameRead

theorem framesRead_append (p q : List (TakenStep H)) :
    framesRead (p ++ q) = framesRead p ++ framesRead q := by
  rw [framesRead, List.flatMap_append, List.flatMap_append]
  rfl

theorem effectsOn_append (o : Nat) (t : UInt32) (p q : List (TakenStep H)) :
    effectsOn o t (p ++ q) = effectsOn o t p ++ effectsOn o t q :=
  List.flatMap_append

/-! ## Shadows -/

/-- The read task as stream `o` with id `t` sees it: with a frame of another stream it
seems to wait for the next frame. -/
def ReadTask.shadow (o : Nat) (t : UInt32) : ReadTask H → ReadTask H
  | .loadLast f => if f.streamId = t then .loadLast f else .reading
  | .loadGoneAway f => if f.streamId = t then .loadGoneAway f else .reading
  | .register f => if f.streamId = t then .register f else .reading
  | .inUse f => if f.streamId = t then .inUse f else .reading
  | .storeLast f _ => if f.streamId = t then .storeLast f 0 else .reading
  | .lookup f => if f.target = t then .lookup f else .reading
  | .forward _ f => if f.target = t then .forward 0 f else .reading
  | .respond f => if keeps t f then .respond f else .reading
  | .sweep rest => .sweep (List.replicate (rest.count o) 0)
  | p => p

/-- The message as its worker has it in the shadow. -/
def WorkerMsg.shadow (m : WorkerMsg H) : WorkerMsg H := { m with stream := 0 }

/-- The messages for stream `o`, as the worker has them in the shadow. -/
def shadowQueue (o : Nat) (queue : List (WorkerMsg H)) : List (WorkerMsg H) :=
  (queue.filter fun m => m.stream = o).map WorkerMsg.shadow

/-- `w'` has what `w` has for stream `o`. -/
structure WorkerShadow (o : Nat) (w w' : Worker H) : Prop where
  queue : w'.queue = shadowQueue o w.queue
  todo : w'.todo = w.todoFor o
  stream : w'.stream = 0

/-- The calls on stream `o`, under other numbers. -/
def CallsShadow (o : Nat) (s s' : State H) (number : Nat → Nat) : Prop :=
  (∀ j pc, s.pcOf o j = some pc → s'.pcOf 0 (number j) = some pc) ∧
    ∀ i j pc pc', s.pcOf o i = some pc → s.pcOf o j = some pc' → number i = number j → i = j

/-- `s'` is a shadow of `s` for the stream with number `o` and id `t`. -/
structure Shadow (o : Nat) (t : UInt32) (s s' : State H) : Prop where
  task : s'.readTask = s.readTask.shadow o t
  streams : ∀ k, s'.streams.lookup k = if k = t then (s.streams.lookup t).map fun _ => 0 else none
  last : s'.lastClientStreamId = if s.lastClientStreamId < t then 0 else t
  gone : s'.goneAway = s.goneAway
  channel : s'.writeChannel.isOpen = s.writeChannel.isOpen
  objs : s'.objs = (s.objs[o]?).toList
  workers : ∀ i, WorkerShadow o (s.workers i) (s'.workers i)
  handed : o ∈ s.handed → 0 ∈ s'.handed
  calls : ∃ number, CallsShadow o s s' number

/-- Stream `o` has the id `t`, or it may still be made for a SYN_STREAM with this id. -/
def State.Awaits (o : Nat) (t : UInt32) (s : State H) : Prop :=
  s.ids[o]? = some t ∨ s.objs.length ≤ o ∧ t ∉ s.ids ∧ s.lastClientStreamId < t ∧
    (s.goneAway = false ∨ ∃ f, s.readTask = .register f ∧ f.streamId = t)

/-- The same is seen of the stream, in a history and in its shadow. -/
structure Alike (o : Nat) (t : UInt32) (hist hist' : List (TakenStep H)) : Prop where
  read : framesRead hist' = (framesRead hist).filter (keeps t)
  effects : effectsOn 0 t hist' = effectsOn o t hist

theorem alike_compares (o : Nat) (t : UInt32) :
    Machine.Compares (Alike (H := H) o t) where
  nil := ⟨rfl, rfl⟩
  append hp hq := by
    constructor
    · rw [framesRead_append, framesRead_append, List.filter_append, hp.read, hq.read]
    · rw [effectsOn_append, effectsOn_append, hp.effects, hq.effects]

/-- The step `x` casts a shadow from `s'` on. -/
def Casts (o : Nat) (t : UInt32) (x : TakenStep H) (s' : State H) : Prop :=
  (connection H).Follows (Shadow o t) (Alike o t) x s'

/-- A step of another stream casts none. -/
theorem casts_none {o : Nat} {t : UInt32} {x : TakenStep H} {s' : State H}
    (h : Shadow o t x.after s') (hread : (framesRead [x]).filter (keeps t) = [])
    (heffects : effectsOn o t [x] = []) : Casts o t x s' :=
  ⟨[], s', .stay s', h, hread.symm, heffects.symm⟩

theorem casts_one {o : Nat} {t : UInt32} {x : TakenStep H} {s' s'' : State H} {a' : Action H}
    {es' : List (Event H)} (hs : s'.step a' = some (s'', es')) (h : Shadow o t x.after s'')
    (hread : es'.flatMap Event.frameRead = (x.events.flatMap Event.frameRead).filter (keeps t))
    (heffects : stepEffects 0 t ⟨s', a', s'', es'⟩ = stepEffects o t x) : Casts o t x s' := by
  refine ⟨_, s'', .one hs, h, ?_, ?_⟩
  · simpa [framesRead] using hread
  · simpa [effectsOn] using heffects

/-! ## Streams that are there or may still come -/

variable {guard : List (Event H) → State H → Action H → Prop} {evs : List (Event H)} {s : State H}

theorem ids_none_iff {s : State H} {o : Nat} : s.ids[o]? = none ↔ s.objs[o]? = none := by
  rw [State.ids, List.getElem?_map, Option.map_eq_none_iff]

/-- The read task comes to a registration through the gate only. -/
theorem register_step {s' : State H} {a : Action H} {es : List (Event H)}
    (hs : s.step a = some (s', es)) {f : SynStreamFrame H} (hpc : s'.readTask = .register f) :
    s.readTask = .register f ∨ s.goneAway = false := by
  cases step_kind hs with
  | aside ha => exact .inl (ha.readTask.symm.trans hpc)
  | read g pc state events =>
      rw [state] at hpc
      rcases dispatch_cases g with ⟨hplain, -⟩ | ⟨g', rfl, -, hnext⟩ | ⟨-, hnext⟩
      · rw [show dispatch g = .register f from hpc] at hplain
        cases hplain
      · cases hnext.symm.trans hpc
      · cases hnext.symm.trans hpc
  | move hmove =>
      cases hmove with
      | plain still before next loop mute =>
          rw [hpc] at next
          cases next
      | passed g pc here => exact .inr here
      | missed g pc miss =>
          have hplain := missing_isPlain g
          rw [show missing g = .register f from hpc] at hplain
          cases hplain
      | _ => cases hpc
  | worker i hmove => exact .inl (hmove.readTask.symm.trans hpc)

/-- The counter only grows. -/
theorem last_grows (hreg : Registry s) {s' : State H} {a : Action H} {es : List (Event H)}
    (hs : s.step a = some (s', es)) : s.lastClientStreamId ≤ s'.lastClientStreamId := by
  rcases last_step hs with hsame | ⟨f, o, hpc, hstored⟩
  · rw [hsame]
    exact UInt32.le_refl _
  · have htask := hreg.task
    rw [hpc] at htask
    rw [hstored]
    exact UInt32.le_of_lt htask.1

/-- What is awaited after a step was awaited before it. -/
theorem awaits_before (hrun : (connection H).Run guard evs s) {o : Nat} {t : UInt32} {s' : State H}
    {a : Action H} {es : List (Event H)} (hs : s.step a = some (s', es)) (h : s'.Awaits o t) :
    s.Awaits o t := by
  have hreg := registry_run hrun
  rcases h with hid | ⟨hlen, hnot, hlast, hgate⟩
  · cases hold : s.ids[o]? with
    | some k => exact .inl (hold.trans ((ids_grow hs hold).symm.trans hid))
    | none =>
        right
        have hsame : s'.objs[o]? ≠ s.objs[o]? := fun hsame => by
          rw [ids_none_iff, ← hsame, ← ids_none_iff, hid] at hold
          cases hold
        have hnone := ids_none_iff.mp hold
        cases stream_step hrun hs o with
        | make f pc before now calls events =>
            have hf : f.streamId = t := by
              have hnow := ids_of_get now
              exact Option.some.inj (hnow.symm.trans hid)
            subst hf
            refine ⟨List.getElem?_eq_none_iff.mp before, fun hmem => ?_, ?_, .inr ⟨f, pc, rfl⟩⟩
            · exact UInt32.lt_irrefl _ (hreg.fresh pc _ hmem)
            · have htask := hreg.task
              rw [pc] at htask
              exact htask.2
        | call j alt pc st out action get obj => cases hnone.symm.trans obj
        | cancel j pc pc' st st' action get obj => cases hnone.symm.trans obj
        | work i op rest st action stream todo obj => cases hnone.symm.trans obj
        | sweep st sweeps obj => cases hnone.symm.trans obj
        | invoke j r action fresh now => exact absurd now hsame
        | other same => exact absurd same hsame
  · right
    have hids := ids_step hs
    refine ⟨?_, fun hmem => hnot ?_, UInt32.lt_of_le_of_lt (last_grows hreg hs) hlast, ?_⟩
    · have hlength := congrArg List.length hids
      rw [List.length_append] at hlength
      have hobjs : s.ids.length = s.objs.length := List.length_map _
      have hobjs' : s'.ids.length = s'.objs.length := List.length_map _
      omega
    · rw [hids]
      exact List.mem_append_left _ hmem
    · rcases hgate with hhere | ⟨f, hpc, hf⟩
      · exact .inl (Bool.eq_false_iff.mpr fun hgone =>
          Bool.eq_false_iff.mp hhere (gone_step hs hgone))
      · rcases register_step hs hpc with hbefore | hhere
        · exact .inr ⟨f, hbefore, hf⟩
        · exact .inl hhere

/-- Whoever has the id that is awaited is the stream. -/
theorem awaited_unique (hreg : Registry s) {o o' : Nat} {t : UInt32} (h : s.Awaits o t)
    (hid : s.ids[o']? = some t) : o' = o := by
  rcases h with ho | ⟨-, hnot, -⟩
  · exact hreg.unique hid ho
  · exact absurd (List.mem_of_getElem? hid) hnot

/-- Another stream has another id. -/
theorem other_id {o : Nat} {t k : UInt32} (h : s.Awaits o t) (hid : s.ids[o]? = some k) :
    k = t := by
  rcases h with ho | ⟨hlen, -⟩
  · exact Option.some.inj (hid.symm.trans ho)
  · have hlt := (List.getElem?_eq_some_iff.mp hid).1
    rw [State.ids, List.length_map] at hlt
    omega

/-! ## Workers of a shadow -/

variable {o : Nat} {t : UInt32} {s' : State H}

theorem shadowQueue_append (o : Nat) (p q : List (WorkerMsg H)) :
    shadowQueue o (p ++ q) = shadowQueue o p ++ shadowQueue o q := by
  simp [shadowQueue]

theorem shadowQueue_own {m : WorkerMsg H} (h : m.stream = o) (rest : List (WorkerMsg H)) :
    shadowQueue o (m :: rest) = m.shadow :: shadowQueue o rest := by
  simp [shadowQueue, h]

theorem shadowQueue_other {m : WorkerMsg H} (h : m.stream ≠ o) (rest : List (WorkerMsg H)) :
    shadowQueue o (m :: rest) = shadowQueue o rest := by
  simp [shadowQueue, h]

theorem shadowQueue_length_le (o : Nat) (q : List (WorkerMsg H)) :
    (shadowQueue o q).length ≤ q.length := by
  rw [shadowQueue, List.length_map]
  exact List.length_filter_le _ q

/-- Both workers change. -/
theorem Shadow.update (h : Shadow o t s s') {i : Fin nWorkers} {w w' : Worker H}
    (hw : WorkerShadow o w w') (j : Fin nWorkers) :
    WorkerShadow o (Function.update s.workers i w j) (Function.update s'.workers i w' j) := by
  by_cases hj : j = i
  · subst hj
    rw [Function.update_self, Function.update_self]
    exact hw
  · rw [Function.update_of_ne hj, Function.update_of_ne hj]
    exact h.workers j

/-- The worker changes and the shadow has nothing of it. -/
theorem Shadow.update_unseen (h : Shadow o t s s') {i : Fin nWorkers} {w : Worker H}
    (hw : WorkerShadow o w (s'.workers i)) (j : Fin nWorkers) :
    WorkerShadow o (Function.update s.workers i w j) (s'.workers j) := by
  by_cases hj : j = i
  · subst hj
    rw [Function.update_self]
    exact hw
  · rw [Function.update_of_ne hj]
    exact h.workers j

end SpdyStream.Session
