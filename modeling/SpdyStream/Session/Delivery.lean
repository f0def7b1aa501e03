/-
  Session/Delivery.lean --- what the reader of a stream sees: the end of the
  peer's side, and the payloads.

  Both are set by what the worker of the stream has done, and routing says what
  that is.  A stream is marked closed exactly by the frames whose operations
  close it, and these do not include a SYN_STREAM.  A payload comes out of
  `read_data` in the order it was pushed, but a push to a full queue is lost.
-/
import SpdyStream.Session.Admission

set_option autoImplicit false

namespace SpdyStream.Session

open SpdyStream.Foundation
open SpdyStream.Framing

variable {H : Type}

/-! ## The remote close -/

/-- A stream is there and marked remote-closed. -/
def State.isRemoteClosed (o : Nat) (s : State H) : Bool :=
  match s.objs[o]? with
  | none => false
  | some st => st.remoteClosed

theorem isRemoteClosed_eq (s : State H) (o : Nat) :
    s.isRemoteClosed o = ((s.objs.map Stream.remoteClosed)[o]?).getD false := by
  rw [State.isRemoteClosed, List.getElem?_map]
  cases s.objs[o]? with
  | none => rfl
  | some st => rfl

theorem isRemoteClosed_congr {s s' : State H}
    (h : s'.objs.map Stream.peerSide = s.objs.map Stream.peerSide) (o : Nat) :
    s'.isRemoteClosed o = s.isRemoteClosed o := by
  have hsnd := congrArg (List.map Prod.snd) h
  rw [List.map_map, List.map_map] at hsnd
  rw [isRemoteClosed_eq, isRemoteClosed_eq]
  exact congrArg (fun l => (l[o]?).getD false) hsnd

/-- What is added at the end is not seen if it is what is seen beyond the end. -/
theorem getD_concat_default {α : Type} (l : List α) (d : α) (i : Nat) :
    ((l ++ [d])[i]?).getD d = (l[i]?).getD d := by
  rcases Nat.lt_trichotomy i l.length with hlt | rfl | hgt
  · rw [List.getElem?_append_left hlt]
  · rw [List.getElem?_concat_length, List.getElem?_eq_none (Nat.le_refl _)]
    rfl
  · have hbeyond : (l ++ [d]).length ≤ i := by
      rw [List.length_append]
      exact hgt
    rw [List.getElem?_eq_none hbeyond, List.getElem?_eq_none (Nat.le_of_lt hgt)]

theorem isRemoteClosed_modify (s : State H) {o o' : Nat} {st : Stream H}
    (hst : s.objs[o']? = some st) :
    (s.modifyStream o' Stream.closeRemote).isRemoteClosed o = true ↔
      s.isRemoteClosed o = true ∨ o' = o := by
  simp only [State.isRemoteClosed, State.modifyStream, List.getElem?_modify]
  by_cases ho : o' = o
  · subst ho
    simp [hst, Stream.closeRemote]
  · cases s.objs[o]? with
    | none => simp [ho]
    | some st' => simp [ho]

theorem ReadTask.inLoop_of_answer {t : ReadTask H} {f : Frame H} (h : t.answer = some f) :
    t.inLoop = true := by
  cases t with
  | respond _ | inUse _ => rfl
  | _ => cases h

/-- While the read loop runs, a step closes a stream if it does the operation
that closes it. -/
theorem closed_step {s s' : State H} {a : Action H} {es : List (Event H)}
    (hsound : ∀ i, (s.workers i).Sound s.ids i) (hs : s.step a = some (s', es))
    (hloop : s'.readTask.inLoop = true) (o : Nat) :
    s.readTask.inLoop = true ∧ (s'.isRemoteClosed o = true ↔
      s.isRemoteClosed o = true ∨ .closeRemote ∈ es.flatMap (Event.workedOn o)) := by
  have hkept : s.isRemoteClosed o = true ↔ s.isRemoteClosed o = true ∨
      WorkerOp.closeRemote ∈ ([] : List WorkerOp) := by simp
  cases step_kind hs with
  | aside ha kind =>
      rw [← ha.readTask, isRemoteClosed_congr ha.peerSide,
        flatMap_quiet (fun _ he => (Event.routing_quiet he o).2.2.2) ha.quiet]
      exact ⟨hloop, hkept⟩
  | read f pc state events =>
      have hworked := flatMap_rejectedAtOnce (Event.workedOn o) (fun _ _ => rfl) f
      rw [events, List.flatMap_cons, hworked, pc, state]
      exact ⟨rfl, hkept⟩
  | move hmove =>
      cases hmove with
      | plain still before next loop mute =>
          obtain ⟨hbefore, hobjs⟩ := loop hloop
          have hsame : s'.isRemoteClosed o = s.isRemoteClosed o :=
            isRemoteClosed_congr (by rw [hobjs]) o
          refine ⟨hbefore, ?_⟩
          rw [hsame]
          exact hkept
      | answer f c es pc channel events =>
          rw [flatMap_quiet (fun _ he => (Event.routing_quiet he o).2.2.2) (answer_quiet events)]
          exact ⟨ReadTask.inLoop_of_answer pc, hkept⟩
      | accept f pc notMem =>
          refine ⟨by rw [pc]; rfl, ?_⟩
          have hsame := getD_concat_default (s.objs.map Stream.remoteClosed) false o
          rw [isRemoteClosed_eq, List.map_append, isRemoteClosed_eq s o, ← hsame]
          simp [Event.workedOn, Stream.new]
      | stale f pc _ | checked f pc _ | refused f pc _ | passed f pc _ | taken f pc _
      | publish f _ pc | found f _ pc _ | missed f pc _ | deliver _ f pc _ =>
          exact ⟨by rw [pc]; rfl, hkept⟩
  | worker i hmove action =>
      cases hmove with
      | take m rest idle queue worker => exact ⟨hloop, hkept⟩
      | spawn rest todo | remove rest _ todo _ _ =>
          refine ⟨hloop, ?_⟩
          by_cases ho : (s.workers i).stream = o
          · simp [Event.workedOn, ho, State.isRemoteClosed, State.setTodo]
          · simp [Event.workedOn, ho, State.isRemoteClosed, State.setTodo]
      | push data rest st todo obj =>
          have hside : ∀ st : Stream H, (st.pushData data).peerSide = st.peerSide := fun st => by
            unfold Stream.pushData
            split
            · rfl
            · rfl
          have hsame : State.isRemoteClosed o
              ((s.setTodo i rest).modifyStream (s.workers i).stream fun st => st.pushData data) =
                s.isRemoteClosed o := isRemoteClosed_congr (map_modify_eq hside _ _) o
          refine ⟨hloop, ?_⟩
          rw [hsame]
          by_cases ho : (s.workers i).stream = o
          · simp [Event.workedOn, ho]
          · simp [Event.workedOn, ho]
      | reply op rest g todo isReply side queue fin =>
          have hsame : State.isRemoteClosed o
              ((s.setTodo i rest).modifyStream (s.workers i).stream g) = s.isRemoteClosed o :=
            isRemoteClosed_congr (map_modify_eq side _ _) o
          have hop : op ≠ .closeRemote := by
            rcases isReply with rfl | rfl <;> simp
          refine ⟨hloop, ?_⟩
          rw [hsame]
          by_cases ho : (s.workers i).stream = o
          · simp [Event.workedOn, ho, hop.symm]
          · simp [Event.workedOn, ho]
      | close rest todo =>
          obtain ⟨k, hid, -⟩ := (hsound i).todo (by rw [todo]; exact List.cons_ne_nil _ _)
          obtain ⟨st, hst, -⟩ := Option.map_eq_some_iff.mp (List.getElem?_map ▸ hid)
          refine ⟨hloop, ?_⟩
          rw [isRemoteClosed_modify (s.setTodo i rest) hst]
          by_cases ho : (s.workers i).stream = o
          · simp [Event.workedOn, ho]
          · simp [Event.workedOn, ho, State.isRemoteClosed, State.setTodo]

variable {guard : List (Event H) → State H → Action H → Prop} {evs : List (Event H)} {s : State H}

/-- While the read loop runs, the streams that are closed are those that a worker
has closed. -/
theorem closed_iff_worked (h : (connection H).Run guard evs s)
    (hloop : s.readTask.inLoop = true) (o : Nat) :
    s.isRemoteClosed o = true ↔ .closeRemote ∈ evs.flatMap (Event.workedOn o) := by
  refine h.invariant (I := fun evs s => s.readTask.inLoop = true →
    (s.isRemoteClosed o = true ↔ .closeRemote ∈ evs.flatMap (Event.workedOn o))) ?_ ?_ hloop
  · intro _
    simp [connection, State.initial, State.isRemoteClosed]
  · intro evs es s s' a hrun _ hs ih hloop
    obtain ⟨hbefore, hclosed⟩ := closed_step (workers_sound hrun) hs hloop o
    rw [hclosed, ih hbefore, List.flatMap_append, List.mem_append]

/-! ### Which frames close -/

/-- A frame with the FIN flag. -/
def carriesFin : Frame H → Bool
  | .synStream f => f.flags &&& flagFin ≠ 0
  | .synReply f => f.flags &&& flagFin ≠ 0
  | .headers f => f.flags &&& flagFin ≠ 0
  | .data f => f.flags &&& dataFlagFin ≠ 0
  | .rstStream _ | .settings _ | .ping _ | .goAway _ | .windowUpdate _ => false

/-- A frame after which the peer sends no more. -/
def endsPeer : Frame H → Bool
  | .rstStream _ => true
  | f => carriesFin f

theorem mem_closeIf {p : Prop} [Decidable p] : .closeRemote ∈ closeIf p ↔ p := by
  unfold closeIf
  split
  · simp [*]
  · simp [*]

/-- A worker closes a stream for the frames that end it, but not for the
SYN_STREAM. -/
theorem closes_iff {f : Frame H} (h : isRoutable f = true) :
    .closeRemote ∈ workerOps f ↔ endsPeer f = true := by
  cases f with
  | synStream _ | settings _ | ping _ | goAway _ | windowUpdate _ => cases h
  | synReply sr => simp [workerOps, mem_closeIf, endsPeer, carriesFin]
  | headers hf => simp [workerOps, mem_closeIf, endsPeer, carriesFin]
  | data df => simp [workerOps, mem_closeIf, endsPeer, carriesFin]
  | rstStream _ => simp [workerOps, endsPeer]

/-- All frames routed to a stream have been processed. -/
structure Processed (o : Nat) (s : State H) : Prop where
  queues : s.inQueues o = []
  held : s.readTask.heldFor o = []
  done : ∀ i, (s.workers i).todoFor o = []

/-- While the read loop runs, a stream whose frames are all processed is closed if
one of them after the SYN_STREAM ends the peer's side. -/
theorem closed_iff_found (h : (connection H).Run guard evs s) {o : Nat} {f₀ : SynStreamFrame H}
    (he : .accepted o f₀ ∈ evs) (hloop : s.readTask.inLoop = true) (hdone : Processed o s) :
    s.isRemoteClosed o = true ↔ ∃ f ∈ evs.flatMap (Event.foundFor o), endsPeer f = true := by
  have horder := inOrder_of_accepted h he
  have happlied : evs.flatMap (Event.appliedTo o) =
      .synStream f₀ :: evs.flatMap (Event.foundFor o) := by
    rw [← horder.order, hdone.queues, hdone.held, List.append_nil, List.append_nil]
  have hworked : evs.flatMap (Event.workedOn o) =
      .spawnHandler :: (evs.flatMap (Event.foundFor o)).flatMap workerOps := by
    have hops := horder.done
    rw [hdone.done, List.append_nil, happlied, List.flatMap_cons] at hops
    exact hops.symm
  rw [closed_iff_worked h hloop o, hworked, List.mem_cons]
  constructor
  · intro hmem
    rcases hmem with hmem | hmem
    · cases hmem
    · obtain ⟨f, hf, hop⟩ := List.mem_flatMap.mp hmem
      exact ⟨f, hf, (closes_iff (horder.own f hf).1).mp hop⟩
  · rintro ⟨f, hf, hends⟩
    exact .inr (List.mem_flatMap.mpr ⟨f, hf, (closes_iff (horder.own f hf).1).mpr hends⟩)

/-- **The end of the peer's side.**  While the read loop runs and all frames of a
stream are processed, it is marked remote-closed exactly when one of them ends the
peer's side, if and only if the SYN_STREAM does not do so alone. -/
theorem remoteClosed_iff_ended (h : (connection H).Reached evs s) {o : Nat}
    {f₀ : SynStreamFrame H} (he : .accepted o f₀ ∈ evs) (hloop : s.readTask.inLoop = true)
    (hdone : Processed o s) :
    (s.isRemoteClosed o = true ↔
        ∃ f ∈ evs.flatMap (Event.appliedTo o), endsPeer f = true) ↔
      (carriesFin (.synStream f₀) = true →
        ∃ f ∈ evs.flatMap (Event.foundFor o), endsPeer f = true) := by
  have happlied : evs.flatMap (Event.appliedTo o) =
      .synStream f₀ :: evs.flatMap (Event.foundFor o) := by
    rw [← (inOrder_of_accepted h he).order, hdone.queues, hdone.held, List.append_nil,
      List.append_nil]
  rw [closed_iff_found h he hloop hdone, happlied, List.exists_mem_cons_iff]
  constructor
  · exact fun hiff hfin => hiff.mpr (.inl hfin)
  · intro hfin
    constructor
    · exact fun hrest => .inr hrest
    · rintro (hsyn | hrest)
      · exact hfin hsyn
      · exact hrest

/-- A stream whose SYN_STREAM carries no FIN is closed by a HEADERS frame that
does. -/
theorem remoteClosed_iff_ended_headersFin : ∃ evs s, (connection Unit).Reached evs s ∧
    s.isRemoteClosed 0 = true ∧
    ((s.isRemoteClosed 0 = true ↔
        ∃ f ∈ evs.flatMap (Event.appliedTo 0), endsPeer f = true) ↔
      (carriesFin (.synStream (plainSyn 1 0)) = true →
        ∃ f ∈ evs.flatMap (Event.foundFor 0), endsPeer f = true)) := by
  let f : Frame Unit := .headers { streamId := 1, flags := flagFin, headers := () }
  obtain ⟨evs, s, h, hcheck⟩ := Machine.exists_run_of_exec (connection Unit) Machine.free
    (registers (plainSyn 1 0) ++ routes f ++ applies (.synStream (plainSyn 1 0)) ++ applies f)
    (fun evs s => decide (.accepted 0 (plainSyn 1 0) ∈ evs ∧
      s.readTask.inLoop = true ∧ s.inQueues 0 = [] ∧ s.readTask.heldFor 0 = [] ∧
      (∀ i, (s.workers i).todoFor 0 = []) ∧ s.isRemoteClosed 0 = true))
    (by decide +kernel)
  obtain ⟨haccepted, hloop, hqueues, hheld, hdone, hclosed⟩ := of_decide_eq_true hcheck
  exact ⟨evs, s, h, hclosed, remoteClosed_iff_ended h haccepted hloop ⟨hqueues, hheld, hdone⟩⟩

/-- A stream whose SYN_STREAM carries FIN is not closed when it is processed. -/
theorem synFin_not_remoteClosed : ¬ ∀ evs s o (f₀ : SynStreamFrame Unit),
    (connection Unit).Reached evs s → .accepted o f₀ ∈ evs → s.readTask.inLoop = true →
    Processed o s →
    (s.isRemoteClosed o = true ↔ ∃ f ∈ evs.flatMap (Event.appliedTo o), endsPeer f = true) := by
  intro hall
  let f₀ := plainSyn 1 flagFin
  obtain ⟨evs, s, h, hcheck⟩ := Machine.exists_run_of_exec (connection Unit) Machine.free
    (registers f₀ ++ applies (.synStream f₀))
    (fun evs s => decide (.accepted 0 f₀ ∈ evs ∧
      s.readTask.inLoop = true ∧ s.inQueues 0 = [] ∧ s.readTask.heldFor 0 = [] ∧
      (∀ i, (s.workers i).todoFor 0 = []) ∧ s.isRemoteClosed 0 = false ∧
      .synStream f₀ ∈ evs.flatMap (Event.appliedTo 0)))
    (by decide +kernel)
  obtain ⟨haccepted, hloop, hqueues, hheld, hdone, hclosed, happlied⟩ := of_decide_eq_true hcheck
  have hends := (hall evs s 0 f₀ h haccepted hloop ⟨hqueues, hheld, hdone⟩).mpr
    ⟨.synStream f₀, happlied, by decide⟩
  rw [hclosed] at hends
  cases hends

/-! ## Payloads -/

/-- The payloads that calls of `read_data` have returned for stream `o`. -/
def Event.deliveredFrom (o : Nat) : Event H → List Bytes
  | .delivered o' data => if o' = o then [data] else []
  | _ => []

/-- The payloads that were pushed to stream `o` and kept. -/
def Event.keptFor (o : Nat) : Event H → List Bytes
  | .pushed o' data true => if o' = o then [data] else []
  | _ => []

/-- The payload an operation pushes. -/
def WorkerOp.payload : WorkerOp → List Bytes
  | .pushData data => [data]
  | _ => []

/-- The payload of a DATA frame. -/
def framePayload : Frame H → List Bytes
  | .data df => [df.data]
  | _ => []

/-- The payloads in the channel of stream `o`. -/
def State.payloadsOf (o : Nat) (s : State H) : List Bytes :=
  match s.objs[o]? with
  | none => []
  | some st => st.dataQueue

theorem payloadsOf_eq (s : State H) (o : Nat) :
    s.payloadsOf o = ((s.objs.map Stream.dataQueue)[o]?).getD [] := by
  rw [State.payloadsOf, List.getElem?_map]
  cases s.objs[o]? with
  | none => rfl
  | some st => rfl

theorem payloadsOf_congr {s s' : State H}
    (h : s'.objs.map Stream.dataQueue = s.objs.map Stream.dataQueue) (o : Nat) :
    s'.payloadsOf o = s.payloadsOf o := by
  rw [payloadsOf_eq, payloadsOf_eq, h]

/-- A call takes from the payloads of its own stream what it returns. -/
theorem payloads_call {s : State H} {k : Nat} {c : Call H} {st : Stream H} {out : CallOutcome H}
    (hobj : s.objs[c.stream]? = some st) (hkeeps : CallKeeps (c.pc.sends st) st s.writeChannel out)
    {s' : State H} (hs' : s'.objs = s.objs.set c.stream out.stream) (o : Nat) :
    s.payloadsOf o =
      (out.effects.map (callEvent k c.stream)).flatMap (Event.deliveredFrom o) ++
        s'.payloadsOf o := by
  have hpick : ∀ eff : CallEffect H, (callEvent k c.stream eff).deliveredFrom o =
      if c.stream = o then eff.payload else [] := fun eff => by
    cases eff with
    | enqueued f => simp [callEvent, Event.deliveredFrom, CallEffect.payload]
    | delivered d => rfl
  have hlt := (List.getElem?_eq_some_iff.mp hobj).1
  simp only [List.flatMap_map, hpick, State.payloadsOf, hs']
  by_cases ho : c.stream = o
  · subst ho
    rw [hobj, List.getElem?_set_self hlt]
    simpa using hkeeps.payloads
  · rw [List.getElem?_set_ne ho]
    simp [ho]

/-- A worker that pushes a payload puts it behind the others if there is room. -/
theorem payloads_push {s : State H} {o' : Nat} {st : Stream H} (data : Bytes)
    (hobj : s.objs[o']? = some st) (o : Nat) :
    s.payloadsOf o ++
        Event.keptFor o (.pushed o' data (decide (st.dataQueue.length < dataCapacity)) : Event H) =
      (s.modifyStream o' fun st => st.pushData data).payloadsOf o := by
  simp only [State.payloadsOf, State.modifyStream, List.getElem?_modify]
  by_cases hroom : st.dataQueue.length < dataCapacity
  · by_cases ho : o' = o
    · subst ho
      simp [hobj, Event.keptFor, Stream.pushData, hroom]
    · cases s.objs[o]? with
      | none => simp [Event.keptFor, hroom, ho]
      | some st' => simp [Event.keptFor, hroom, ho]
  · by_cases ho : o' = o
    · subst ho
      simp [hobj, Event.keptFor, Stream.pushData, hroom]
    · cases s.objs[o]? with
      | none => simp [Event.keptFor, hroom]
      | some st' => simp [Event.keptFor, hroom, ho]

theorem payloads_step {s s' : State H} {a : Action H} {es : List (Event H)}
    (hs : s.step a = some (s', es)) (o : Nat) :
    s.payloadsOf o ++ es.flatMap (Event.keptFor o) =
      es.flatMap (Event.deliveredFrom o) ++ s'.payloadsOf o := by
  have hkept : ∀ {es : List (Event H)}, (∀ e ∈ es, e.isQuiet = true) →
      es.flatMap (Event.keptFor o) = [] := fun hes => by
    refine flatMap_quiet (fun e he => ?_) hes
    cases e with
    | pushed _ _ _ => cases he
    | _ => rfl
  cases step_kind hs with
  | aside ha kind =>
      rw [hkept ha.quiet, List.append_nil]
      cases kind with
      | call k alt c st out action get obj outcome state events =>
          rw [events]
          exact payloads_call obj (callStep_keeps outcome) (by rw [state]) o
      | cancel k c st st' pc action get obj outcome state events =>
          have hqueue := (callCancel_keeps outcome).2
          rw [events, state]
          exact (payloadsOf_congr (map_set_eq obj hqueue) o).symm
      | invoke o' r action mem state events =>
          rw [events, state]
          rfl
      | apart h =>
          have hnone : es.flatMap (Event.deliveredFrom o) = [] := by
            refine List.flatMap_eq_nil_iff.mpr fun e he => ?_
            rcases h.events e he with ⟨k, g, rfl⟩ | ⟨k, p, rfl⟩
            · rfl
            · rfl
          rw [hnone]
          exact (payloadsOf_congr (by rw [h.objs]) o).symm
  | read f pc state events =>
      have hpushed := flatMap_rejectedAtOnce (Event.keptFor o) (fun _ _ => rfl) f
      have hnone := flatMap_rejectedAtOnce (Event.deliveredFrom o) (fun _ _ => rfl) f
      rw [events, state, List.flatMap_cons, List.flatMap_cons, hpushed, hnone]
      exact List.append_nil _
  | move hmove =>
      cases hmove with
      | plain still before next loop mute =>
          have hqueue := congrArg (List.map fun p => p.2.2) still.ownSide
          rw [List.map_map, List.map_map] at hqueue
          exact (List.append_nil _).trans (payloadsOf_congr hqueue o).symm
      | answer f c es pc channel events =>
          rw [hkept (answer_quiet events), List.append_nil]
          rcases events with ⟨rfl, -⟩ | rfl
          · rfl
          · rfl
      | accept f pc notMem =>
          refine (List.append_nil _).trans ?_
          rw [payloadsOf_eq, payloadsOf_eq, List.map_append]
          exact (getD_concat_default _ [] o).symm
      | _ => exact List.append_nil _
  | worker i hmove action =>
      cases hmove with
      | push data rest st todo obj =>
          have hpush := payloads_push (s := s.setTodo i rest) data obj o
          rw [List.flatMap_cons, List.flatMap_singleton]
          exact hpush
      | close rest todo =>
          have hqueue : (s.objs.modify (s.workers i).stream Stream.closeRemote).map
              Stream.dataQueue = s.objs.map Stream.dataQueue :=
            map_modify_eq (f := Stream.closeRemote) (fun _ => rfl) _ _
          exact (List.append_nil _).trans (payloadsOf_congr hqueue o).symm
      | reply op rest g todo isReply side queue fin =>
          have hqueue : (s.objs.modify (s.workers i).stream g).map Stream.dataQueue =
            s.objs.map Stream.dataQueue := map_modify_eq queue _ _
          exact (List.append_nil _).trans (payloadsOf_congr hqueue o).symm
      | _ => exact List.append_nil _

/-- What was kept has been returned, in this order, but for what is still in the
channel. -/
theorem kept_eq_delivered (h : (connection H).Run guard evs s) (o : Nat) :
    evs.flatMap (Event.keptFor o) = evs.flatMap (Event.deliveredFrom o) ++ s.payloadsOf o :=
  h.conserved (State.payloadsOf o) rfl fun _ _ _ _ _ _ _ hs => payloads_step hs o

/-! ### Full channels -/

/-- The action does not push a payload to stream `o` while its channel is full. -/
def State.pushFits (o : Nat) (s : State H) : Action H → Bool
  | .workerRun i =>
      match (s.workers i).todo, s.objs[o]? with
      | .pushData _ :: _, some st =>
          (s.workers i).stream ≠ o || st.dataQueue.length < dataCapacity
      | _, _ => true
  | _ => true

/-- The condition under which no payload of stream `o` is lost. -/
def RoomFor (o : Nat) (_ : List (Event H)) (s : State H) (a : Action H) : Prop :=
  s.pushFits o a = true

instance (o : Nat) (evs : List (Event H)) (s : State H) (a : Action H) :
    Decidable (RoomFor o evs s a) := inferInstanceAs (Decidable (_ = true))

/-- With room every payload that is pushed is kept. -/
theorem kept_step {s s' : State H} {a : Action H} {es : List (Event H)} {o : Nat}
    (hroom : s.pushFits o a = true) (hs : s.step a = some (s', es)) :
    es.flatMap (Event.keptFor o) = (es.flatMap (Event.workedOn o)).flatMap WorkerOp.payload := by
  have hquiet : ∀ e : Event H, e.isQuiet = true → e.keptFor o = [] ∧ e.workedOn o = [] := by
    intro e he
    cases e with
    | pushed _ _ _ | worked _ _ => cases he
    | _ => exact ⟨rfl, rfl⟩
  cases step_kind hs with
  | aside ha kind =>
      rw [flatMap_quiet (fun e he => (hquiet e he).1) ha.quiet,
        flatMap_quiet (fun e he => (hquiet e he).2) ha.quiet]
      rfl
  | read f pc state events =>
      have hkept := flatMap_rejectedAtOnce (Event.keptFor o) (fun _ _ => rfl) f
      have hworked := flatMap_rejectedAtOnce (Event.workedOn o) (fun _ _ => rfl) f
      rw [events, List.flatMap_cons, List.flatMap_cons, hkept, hworked]
      rfl
  | move hmove =>
      cases hmove with
      | answer f c es pc channel events =>
          rw [flatMap_quiet (fun e he => (hquiet e he).1) (answer_quiet events),
            flatMap_quiet (fun e he => (hquiet e he).2) (answer_quiet events)]
          rfl
      | _ => rfl
  | worker i hmove action =>
      cases hmove with
      | take m rest idle queue worker => rfl
      | push data rest st todo obj =>
          rcases action with rfl | hidle
          · by_cases ho : (s.workers i).stream = o
            · subst ho
              have hlt : st.dataQueue.length < dataCapacity := by
                simpa [State.pushFits, todo, obj] using hroom
              simp [Event.keptFor, Event.workedOn, WorkerOp.payload, hlt]
            · cases hlt : decide (st.dataQueue.length < dataCapacity) with
              | true => simp [Event.keptFor, Event.workedOn, ho]
              | false => simp [Event.keptFor, Event.workedOn, ho]
          · rw [hidle] at todo
            cases todo
      | spawn rest todo | close rest todo | remove rest _ todo _ _ =>
          by_cases ho : (s.workers i).stream = o
          · simp [Event.keptFor, Event.workedOn, WorkerOp.payload, ho]
          · simp [Event.keptFor, Event.workedOn, ho]
      | reply op rest g todo isReply side queue fin =>
          have hop : op.payload = [] := by
            rcases isReply with rfl | rfl
            · rfl
            · rfl
          by_cases ho : (s.workers i).stream = o
          · simp [Event.keptFor, Event.workedOn, hop, ho]
          · simp [Event.keptFor, Event.workedOn, ho]

theorem kept_eq_worked {o : Nat} (h : (connection H).Run (RoomFor o) evs s) :
    evs.flatMap (Event.keptFor o) = (evs.flatMap (Event.workedOn o)).flatMap WorkerOp.payload := by
  refine h.invariant (I := fun evs _ => evs.flatMap (Event.keptFor o) =
    (evs.flatMap (Event.workedOn o)).flatMap WorkerOp.payload) rfl ?_
  intro evs es s s' a _ hroom hs ih
  rw [List.flatMap_append, List.flatMap_append, List.flatMap_append, ih, kept_step hroom hs]

/-- The payloads pushed for a frame are those of the frame. -/
theorem workerOps_payload (f : Frame H) :
    (workerOps f).flatMap WorkerOp.payload = framePayload f := by
  have hclose : ∀ (p : Prop) [Decidable p], (closeIf p).flatMap WorkerOp.payload = [] := by
    intro p _
    unfold closeIf
    split
    · rfl
    · rfl
  cases f with
  | data df => simp [workerOps, WorkerOp.payload, framePayload, hclose]
  | synReply sr => simp [workerOps, WorkerOp.payload, framePayload, hclose]
  | headers hf => simp [workerOps, framePayload, hclose]
  | _ => rfl

theorem ops_payloads (fs : List (Frame H)) :
    (fs.flatMap workerOps).flatMap WorkerOp.payload = fs.flatMap framePayload := by
  rw [List.flatMap_assoc]
  exact List.flatMap_congr fun f _ => workerOps_payload f

/-- The payloads pushed to a stream are among the first that were routed to it. -/
theorem worked_payloads (h : (connection H).Run guard evs s) (o : Nat) :
    (evs.flatMap (Event.workedOn o)).flatMap WorkerOp.payload <+:
      (evs.flatMap (Event.routedTo o)).flatMap framePayload := by
  have hops : (evs.flatMap (Event.appliedTo o)).flatMap framePayload =
      (evs.flatMap (Event.workedOn o)).flatMap WorkerOp.payload ++
        ((s.workers (s.home o)).todoFor o).flatMap WorkerOp.payload := by
    rw [← List.flatMap_append, ← ops_eq_worked h o, ops_payloads]
  rw [routed_eq_forwarded h o, forwarded_eq_applied h o, List.flatMap_append,
    List.flatMap_append, hops, List.append_assoc, List.append_assoc]
  exact List.prefix_append _ _

/-- The SYN_STREAM brings no payload. -/
theorem routed_payloads (evs : List (Event H)) (o : Nat) :
    (evs.flatMap (Event.routedTo o)).flatMap framePayload =
      (evs.flatMap (Event.foundFor o)).flatMap framePayload := by
  rw [List.flatMap_assoc, List.flatMap_assoc]
  refine List.flatMap_congr fun e _ => ?_
  cases e with
  | accepted o' f =>
      simp only [Event.routedTo]
      split
      · rfl
      · rfl
  | lookedUp f found =>
      cases found with
      | none => rfl
      | some o' => rfl
  | _ => rfl

/-- Of the payloads that are pushed, those that are kept are in order. -/
theorem kept_sublist (h : (connection H).Run guard evs s) (o : Nat) :
    (evs.flatMap (Event.keptFor o)).Sublist
      ((evs.flatMap (Event.workedOn o)).flatMap WorkerOp.payload) := by
  refine h.invariant (I := fun evs _ => (evs.flatMap (Event.keptFor o)).Sublist
    ((evs.flatMap (Event.workedOn o)).flatMap WorkerOp.payload)) (.refl _) ?_
  intro evs es s s' a _ _ hs ih
  rw [List.flatMap_append, List.flatMap_append, List.flatMap_append]
  refine ih.append ?_
  have hnone : es.flatMap (Event.keptFor o) = [] → (es.flatMap (Event.keptFor o)).Sublist
      ((es.flatMap (Event.workedOn o)).flatMap WorkerOp.payload) := by
    intro hkept
    rw [hkept]
    exact List.nil_sublist _
  have hquiet : ∀ e : Event H, e.isQuiet = true → e.keptFor o = [] := by
    intro e he
    cases e with
    | pushed _ _ _ => cases he
    | _ => rfl
  cases step_kind hs with
  | aside ha kind => exact hnone (flatMap_quiet hquiet ha.quiet)
  | read f pc state events =>
      refine hnone ?_
      rw [events, List.flatMap_cons, flatMap_rejectedAtOnce (Event.keptFor o) (fun _ _ => rfl)]
      rfl
  | move hmove =>
      cases hmove with
      | answer f c es pc channel events => exact hnone (flatMap_quiet hquiet (answer_quiet events))
      | _ => exact hnone rfl
  | worker i hmove action =>
      cases hmove with
      | push data rest st todo obj =>
          by_cases ho : (s.workers i).stream = o
          · cases decide (st.dataQueue.length < dataCapacity) with
            | true => simp [Event.keptFor, Event.workedOn, WorkerOp.payload, ho]
            | false => simp [Event.keptFor, Event.workedOn, WorkerOp.payload, ho]
          · cases decide (st.dataQueue.length < dataCapacity) with
            | true => simp [Event.keptFor, Event.workedOn, ho]
            | false => simp [Event.keptFor, Event.workedOn, ho]
      | _ => exact hnone rfl

/-- The payloads of the DATA frames of a stream. -/
def payloadsTo (streamId : UInt32) (fs : List (Frame H)) : List Bytes :=
  fs.flatMap fun f => if f.target = streamId then framePayload f else []

theorem payloadsTo_sublist (streamId : UInt32) {fs gs : List (Frame H)} (h : fs.Sublist gs) :
    (payloadsTo streamId fs).Sublist (payloadsTo streamId gs) := by
  induction h with
  | slnil => exact .refl _
  | cons f _ ih => exact ih.trans (List.sublist_append_right _ _)
  | cons_cons f _ ih => exact (List.Sublist.refl _).append ih

/-- What is delivered of a stream is, in this order, among the payloads that were read for
its id, even where a full channel has dropped some. -/
theorem delivered_sublist (h : (connection H).Run guard evs s) {o : Nat} {f₀ : SynStreamFrame H}
    (he : .accepted o f₀ ∈ evs) :
    (evs.flatMap (Event.deliveredFrom o)).Sublist
      (payloadsTo f₀.streamId (evs.flatMap Event.routableRead)) := by
  have hdelivered : (evs.flatMap (Event.deliveredFrom o)).Sublist
      (evs.flatMap (Event.keptFor o)) := by
    rw [kept_eq_delivered h o]
    exact List.sublist_append_left _ _
  have hrouted : ((evs.flatMap (Event.workedOn o)).flatMap WorkerOp.payload).Sublist
      ((evs.flatMap (Event.foundFor o)).flatMap framePayload) := by
    rw [← routed_payloads evs o]
    exact (worked_payloads h o).sublist
  have hown : (evs.flatMap (Event.foundFor o)).flatMap framePayload =
      payloadsTo f₀.streamId (evs.flatMap (Event.foundFor o)) :=
    List.flatMap_congr fun f hf => (if_pos ((routed_log h he).2 f hf).2).symm
  have hlookups : (evs.flatMap (Event.foundFor o)).Sublist (evs.flatMap Event.lookupOf) := by
    refine List.Sublist.flatMap_right evs fun e _ => ?_
    cases e with
    | lookedUp f found =>
        cases found with
        | none => exact List.nil_sublist _
        | some o' =>
            simp only [Event.foundFor, Event.lookupOf]
            split
            · exact .refl _
            · exact List.nil_sublist _
    | _ => exact List.nil_sublist _
  have hreads : (evs.flatMap Event.lookupOf).Sublist (evs.flatMap Event.routableRead) := by
    rw [lookups_eq h]
    exact List.sublist_append_left _ _
  rw [hown] at hrouted
  exact hdelivered.trans ((kept_sublist h o).trans (hrouted.trans
    (payloadsTo_sublist _ (hlookups.trans hreads))))

/-- **Payloads in order.**  As long as no payload is pushed to a stream whose
channel is full, what `read_data` returns is in order and without gap what the
DATA frames of the stream brought. -/
theorem delivered_inOrder {o : Nat} (h : (connection H).Run (RoomFor o) evs s) :
    evs.flatMap (Event.deliveredFrom o) <+:
      (evs.flatMap (Event.foundFor o)).flatMap framePayload := by
  have hdelivered : evs.flatMap (Event.deliveredFrom o) <+: evs.flatMap (Event.keptFor o) := by
    rw [kept_eq_delivered h o]
    exact List.prefix_append _ _
  calc evs.flatMap (Event.deliveredFrom o)
      <+: evs.flatMap (Event.keptFor o) := hdelivered
    _ = (evs.flatMap (Event.workedOn o)).flatMap WorkerOp.payload := kept_eq_worked h
    _ <+: (evs.flatMap (Event.routedTo o)).flatMap framePayload := worked_payloads h o
    _ = (evs.flatMap (Event.foundFor o)).flatMap framePayload := routed_payloads evs o

/-- A DATA frame of stream 1. -/
def plainData (byte : UInt8) : Frame Unit := .data { streamId := 1, flags := 0, data := [byte] }

/-- A DATA frame with FIN. -/
def plainLast (byte : UInt8) : Frame Unit :=
  .data { streamId := 1, flags := dataFlagFin, data := [byte] }

/-- The `k`-th call reads a payload of the first stream. -/
def reads (k : Nat) : List (Action Unit) := .invoke 0 .readData :: calls k 2

/-- Two payloads, of which one has been read. -/
theorem delivered_inOrder_onePayload : ∃ evs s, (connection Unit).Run (RoomFor 0) evs s ∧
    evs.flatMap (Event.deliveredFrom 0) = [[1]] ∧
    evs.flatMap (Event.deliveredFrom 0) <+:
      (evs.flatMap (Event.foundFor 0)).flatMap framePayload := by
  obtain ⟨evs, s, h, hcheck⟩ := Machine.exists_run_of_exec (connection Unit) (RoomFor 0)
    (registers (plainSyn 1 0) ++ applies (.synStream (plainSyn 1 0)) ++
      routes (plainData 1) ++ applies (plainData 1) ++ routes (plainData 2) ++ reads 0)
    (fun evs _ => decide (evs.flatMap (Event.deliveredFrom 0) = [[1]]))
    (by decide +kernel)
  exact ⟨evs, s, h, of_decide_eq_true hcheck, delivered_inOrder h⟩

/-- The peer sends 65 payloads before the first is read, and another one after
that. -/
def tooFast : List (Action Unit) :=
  registers (plainSyn 1 0) ++ applies (.synStream (plainSyn 1 0)) ++
    (List.replicate 65 (routes (plainData 1) ++ applies (plainData 1))).flatten ++ reads 0 ++
    routes (plainData 2) ++ applies (plainData 2) ++ (List.range' 1 64).flatMap reads

/-- The 65th payload is never returned, the 66th is. -/
theorem delivered_skips_payload : ¬ ∀ evs (s : State Unit) o, (connection Unit).Reached evs s →
    evs.flatMap (Event.deliveredFrom o) <+:
      (evs.flatMap (Event.foundFor o)).flatMap framePayload := by
  intro hall
  obtain ⟨evs, s, h, hcheck⟩ := Machine.exists_run_of_outputs (connection Unit) tooFast
    (fun evs _ => decide (¬ evs.flatMap (Event.deliveredFrom 0) <+:
      (evs.flatMap (Event.foundFor 0)).flatMap framePayload))
    (by decide +kernel)
  exact of_decide_eq_true hcheck (hall evs s 0 h)

end SpdyStream.Session
