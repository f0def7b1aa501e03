/-
  Session/Isolation.lean --- streams do not interfere.

  The workers, the calls and the rest of the connection cast their shadows as the
  read task does.  By induction every run has a shadow for each of its streams:
  a run in which only the frames of this stream are read, and in which the same
  is done to it (`streams_isolated`).
-/
import SpdyStream.Session.ShadowTask

set_option autoImplicit false

namespace SpdyStream.Session

open SpdyStream.Foundation
open SpdyStream.Framing

variable {H : Type} {o : Nat} {t : UInt32} {s s' : State H}

/-! ## Workers -/

/-- A worker receives the message of the stream in the shadow as well. -/
theorem casts_workerRecv (h : Shadow o t s s') {i : Fin nWorkers} {s₁ : State H}
    {es : List (Event H)} (hs : s.step (.workerRecv i) = some (s₁, es)) :
    Casts o t ⟨s, .workerRecv i, s₁, es⟩ s' := by
  simp only [State.step, State.workerRecv] at hs
  split at hs
  · rename_i m rest hidle hqueue
    cases hs
    have hworker := h.workers i
    have hidle' : (s'.workers i).todo = [] := by
      rw [hworker.todo, Worker.todoFor, hidle, ite_self]
    by_cases ho : m.stream = o
    · have hqueue' : (s'.workers i).queue = m.shadow :: shadowQueue o rest := by
        rw [hworker.queue, hqueue, shadowQueue_own ho]
      let w' : Worker H :=
        { queue := shadowQueue o rest, stream := 0, todo := workerOps m.frame }
      have hs' : s'.step (.workerRecv i) =
          some ({ s' with workers := Function.update s'.workers i w' }, [.applied 0 m.frame]) := by
        simp only [State.step, State.workerRecv, hidle', hqueue']
        rfl
      exact casts_one hs' { h with
        workers := h.update { queue := rfl, todo := (if_pos ho).symm, stream := rfl } } rfl rfl
    · refine casts_none { h with
        workers := h.update_unseen { hworker with queue := ?_, todo := ?_ } } rfl rfl
      · rw [hworker.queue, hqueue, shadowQueue_other ho]
      · rw [hidle', Worker.todoFor, if_neg ho]
  · cases hs

/-- What an event shows of stream `0` in the shadow is what it shows of stream `o`. -/
def SeenAlike (o : Nat) (t : UInt32) (es es' : List (Event H)) : Prop :=
  es.flatMap Event.frameRead = [] ∧ es'.flatMap Event.frameRead = [] ∧
    es'.flatMap (Event.effects 0 t) = es.flatMap (Event.effects o t)

/-- An operation on the stream is done in the shadow as well. -/
theorem runOp_shadow (h : Shadow o t s s') (hlock : s.streamsLocked = false →
    s'.streamsLocked = false) (hid : ∀ st, s.objs[o]? = some st → st.streamId = t)
    {op : WorkerOp} {s₁ : State H} {es : List (Event H)} (hop : s.runOp o op = some (s₁, es)) :
    ∃ s₁' es', s'.runOp 0 op = some (s₁', es') ∧ Shadow o t s₁ s₁' ∧ SeenAlike o t es es' := by
  have hmodify : ∀ g : Stream H → Stream H,
      Shadow o t (s.modifyStream o g) (s'.modifyStream 0 g) := fun g => by
    refine { h with objs := ?_ }
    rw [State.modifyStream, State.modifyStream, List.getElem?_modify_eq, h.objs]
    cases s.objs[o]? with
    | none => rfl
    | some st => rfl
  have hobj : ∀ st, s.objs[o]? = some st → s'.objs[0]? = some st := fun st hst => by
    rw [h.objs, hst]
    rfl
  cases op with
  | spawnHandler =>
      cases hop
      refine ⟨_, _, rfl, { h with handed := fun _ => ?_ }, rfl, rfl, rfl⟩
      exact List.mem_append_right _ (List.mem_singleton.mpr rfl)
  | closeRemote | storeReplied | notifyWaiters =>
      cases hop
      exact ⟨_, _, rfl, hmodify _, rfl, rfl, rfl⟩
  | pushData data =>
      simp only [State.runOp] at hop
      split at hop
      · cases hop
      · rename_i st hst
        cases hop
        refine ⟨_, [.pushed 0 data (decide (st.dataQueue.length < dataCapacity))], ?_, hmodify _,
          rfl, rfl, by simp [Event.effects]⟩
        simp only [State.runOp, hobj st hst]
  | removeStream =>
      simp only [State.runOp] at hop
      split at hop
      · cases hop
      · rename_i st hst
        split at hop
        · cases hop
        · rename_i hfree
          cases hop
          have hfree' := hlock (eq_false_of_ne_true hfree)
          have hst' := hobj st hst
          have ht := hid st hst
          subst ht
          refine ⟨{ s' with streams := s'.streams.erase st.streamId },
            [.removed 0 (s'.streams.lookup st.streamId)], ?_, { h with streams := fun k => ?_ },
            rfl, rfl, ?_⟩
          · simp [State.runOp, hst', hfree']
          · by_cases hk : k = st.streamId
            · subst hk
              rw [if_pos rfl, AList.lookup_erase, AList.lookup_erase]
              rfl
            · rw [if_neg hk, AList.lookup_erase_ne hk, h.streams, if_neg hk]
          · rw [h.streams, if_pos rfl]
            simp [Event.effects]

/-- An operation on another stream changes nothing in the shadow. -/
theorem runOp_unseen (h : Shadow o t s s') {o₁ : Nat} (ho : o₁ ≠ o)
    (hid : ∀ st, s.objs[o₁]? = some st → st.streamId ≠ t)
    {op : WorkerOp} {s₁ : State H} {es : List (Event H)} (hop : s.runOp o₁ op = some (s₁, es)) :
    Shadow o t s₁ s' ∧ SeenAlike o t es [] := by
  have hmodify : ∀ g : Stream H → Stream H, Shadow o t (s.modifyStream o₁ g) s' := fun g => by
    refine { h with objs := ?_ }
    rw [h.objs, State.modifyStream, get_modify_other _ _ ho]
  cases op with
  | spawnHandler =>
      cases hop
      refine ⟨{ h with handed := fun hmem => h.handed ?_ }, rfl, rfl, rfl⟩
      rcases List.mem_append.mp hmem with hmem | hmem
      · exact hmem
      · exact absurd (List.mem_singleton.mp hmem).symm ho
  | closeRemote | storeReplied | notifyWaiters =>
      cases hop
      exact ⟨hmodify _, rfl, rfl, rfl⟩
  | pushData data =>
      simp only [State.runOp] at hop
      split at hop
      · cases hop
      · cases hop
        exact ⟨hmodify _, rfl, rfl, by simp [Event.effects, ho]⟩
  | removeStream =>
      simp only [State.runOp] at hop
      split at hop
      · cases hop
      · rename_i st hst
        split at hop
        · cases hop
        · cases hop
          refine ⟨{ h with streams := fun k => ?_ }, rfl, rfl, by simp [Event.effects, ho]⟩
          rw [h.streams k, AList.lookup_erase_ne (Ne.symm (hid st hst))]

/-- The lock of `streams` is free in the shadow when it is free. -/
theorem Shadow.unlocked (hreg : Registry s) (h : Shadow o t s s')
    (hfree : s.streamsLocked = false) : s'.streamsLocked = false := by
  have hsound := hreg.task
  unfold State.streamsLocked at hfree ⊢
  rw [h.task]
  cases hpc : s.readTask with
  | inUse f =>
      rw [hpc] at hsound
      exact hsound.elim
  | sweep rest =>
      rw [hpc] at hfree
      cases hfree
  | loadLast f | loadGoneAway f | register f | storeLast f _ | lookup f | forward _ f
  | respond f =>
      simp only [ReadTask.shadow]
      split
      · rename_i heq
        split at heq <;> cases heq
      · rename_i heq
        split at heq <;> cases heq
      · rfl
  | _ => rfl

/-- A worker goes on with the message of the stream in the shadow as well. -/
theorem casts_workerRun (hreg : Registry s) (h : Shadow o t s s') {i : Fin nWorkers}
    {s₁ : State H} {es : List (Event H)} (hs : s.step (.workerRun i) = some (s₁, es))
    (hbefore : s.Awaits o t) : Casts o t ⟨s, .workerRun i, s₁, es⟩ s' := by
  simp only [State.step, State.workerRun] at hs
  split at hs
  · cases hs
  · rename_i op rest htodo
    obtain ⟨⟨s₂, es₂⟩, hop, hr⟩ := Option.map_eq_some_iff.mp hs
    cases hr
    have hworker := h.workers i
    by_cases ho : (s.workers i).stream = o
    · subst ho
      have htodo' : (s'.workers i).todo = op :: rest := by
        rw [hworker.todo, Worker.todoFor, if_pos rfl, htodo]
      have hset : Shadow _ t (s.setTodo i rest) (s'.setTodo i rest) := { h with
        workers := h.update { hworker with todo := (if_pos rfl).symm } }
      have hlock : s.streamsLocked = false → s'.streamsLocked = false := h.unlocked hreg
      obtain ⟨s₂', es₂', hop', hshadow, hread, hread', heffects⟩ :=
        runOp_shadow hset hlock (fun st hst => other_id hbefore (ids_of_get hst)) hop
      have hrun' : s'.step (.workerRun i) = ((s'.setTodo i rest).runOp (s'.workers i).stream op).map
          (thenWorked (s'.workers i).stream op) := by
        simp only [State.step, State.workerRun, htodo']
        rfl
      have hs' : s'.step (.workerRun i) = some (s₂', .worked 0 op :: es₂') := by
        rw [hrun', hworker.stream, hop']
        rfl
      refine casts_one hs' hshadow ?_ ?_
      · simp [Event.frameRead, hread, hread']
      · simp [stepEffects, State.sweeps, Event.effects, heffects]
    · have htodo' : (s'.workers i).todo = [] := by
        rw [hworker.todo, Worker.todoFor, if_neg ho]
      have hset : Shadow o t (s.setTodo i rest) s' := { h with
        workers := h.update_unseen { hworker with todo := htodo'.trans (if_neg ho).symm } }
      obtain ⟨hshadow, hread, -, heffects⟩ := runOp_unseen hset ho
        (fun st hst hid => ho (awaited_unique hreg hbefore (hid ▸ ids_of_get hst))) hop
      refine casts_none hshadow ?_ ?_
      · simp [framesRead, Event.frameRead, hread]
      · simp [effectsOn, stepEffects, State.sweeps, Event.effects, ho, ← heffects]

/-! ## Calls -/

theorem send_room {c : Channel H} (hroom : c.HasRoom) (f : Frame H) :
    c.send f = if c.isOpen = true then .sent { queue := [f], isOpen := true } else .closed := by
  obtain ⟨queue, isOpen⟩ := c
  cases isOpen with
  | false => rfl
  | true =>
      have hempty : queue = [] := hroom rfl
      subst hempty
      rfl

/-- A call goes on over another channel as it does over its own. -/
structure CallAlike (c : Channel H) (out out' : CallOutcome H) : Prop where
  pc : out'.pc = out.pc
  stream : out'.stream = out.stream
  effects : out'.effects = out.effects
  channel : out'.channel.isOpen = c.isOpen

theorem sendThen_shadow {c c' : Channel H} (hopen : c'.isOpen = c.isOpen) (hroom : c'.HasRoom)
    {st : Stream H} {f : Frame H} {next : CallPc H} {out : CallOutcome H}
    (h : sendThen c st f next = some out) :
    ∃ out', sendThen c' st f next = some out' ∧ CallAlike c out out' := by
  have hsend := send_room hroom f
  rcases sendThen_cases h with ⟨hclosed, rfl⟩ | ⟨hthere, heffects, hstream, hpc⟩
  · rw [hopen, hclosed, if_neg (by decide)] at hsend
    refine ⟨⟨.returned (.failed .connectionClosed), st, c', []⟩, ?_, rfl, rfl, rfl, hopen⟩
    simp only [sendThen, hsend]
  · rw [hopen, hthere, if_pos rfl] at hsend
    refine ⟨⟨next, st, ⟨[f], true⟩, [.enqueued f]⟩, ?_, hpc.symm, hstream.symm, heffects.symm,
      hthere.symm⟩
    simp only [sendThen, hsend]

/-- Where `try_send` finds no slot, it finds one promised to another in the shadow. -/
theorem tryThen_shadow {c c' : Channel H} (hopen : c'.isOpen = c.isOpen) (hroom : c'.HasRoom)
    (blocked : Bool) (st : Stream H) (f : Frame H) (next : CallPc H) :
    ∃ blocked', CallAlike c (tryThen blocked c st f next) (tryThen blocked' c' st f next) := by
  have hsend := send_room hroom f
  rw [hopen] at hsend
  unfold tryThen
  cases hfound : c.send f with
  | closed =>
      rw [closed_of_send hfound, if_neg (by decide)] at hsend
      refine ⟨blocked, ?_⟩
      simp only [hsend]
      exact ⟨rfl, rfl, rfl, hopen⟩
  | full =>
      have hthere : c.isOpen = true := by
        unfold Channel.send at hfound
        split at hfound
        · cases hfound
        · rename_i hthere
          exact eq_true_of_ne_false hthere
      rw [hthere, if_pos rfl] at hsend
      refine ⟨true, ?_⟩
      simp only [hsend, if_true]
      exact ⟨rfl, rfl, rfl, hopen⟩
  | sent c₁ =>
      have hthere := open_of_send hfound
      rw [hthere, if_pos rfl] at hsend
      refine ⟨blocked, ?_⟩
      simp only [hsend]
      cases blocked with
      | false => exact ⟨rfl, rfl, rfl, hthere.symm⟩
      | true => exact ⟨rfl, rfl, rfl, hopen⟩

/-- A call that does not send does not look at the channel. -/
theorem callStep_shadow {c c' : Channel H} (hopen : c'.isOpen = c.isOpen) (hroom : c'.HasRoom)
    {alt : Bool} {pc : CallPc H} {st : Stream H} {out : CallOutcome H}
    (h : callStep alt pc st c = some out) :
    ∃ alt' out', callStep alt' pc st c' = some out' ∧ CallAlike c out out' := by
  cases pc with
  | replySend _ _ | writeSend _ _ | resetSend _ => exact ⟨alt, sendThen_shadow hopen hroom h⟩
  | pollSend buf | shutdownSend =>
      cases h
      obtain ⟨blocked', halike⟩ := tryThen_shadow hopen hroom alt st _ _
      exact ⟨blocked', _, rfl, halike⟩
  | replyStoreReplied _ | replyNotify _ | replyStoreFin | writeLoad _ _ | writeNotified _ _
  | writeReload _ _ _ | writeCheckFin _ _ | writeStoreFin _ | shutdownLoad | shutdownStore =>
      cases h
      exact ⟨alt, _, rfl, rfl, rfl, rfl, hopen⟩
  | writeWait _ _ _ | readLock =>
      simp only [callStep] at h ⊢
      split at h
      · cases h
      · rename_i hgo
        cases h
        exact ⟨alt, _, if_neg hgo, rfl, rfl, rfl, hopen⟩
  | readBorrow =>
      simp only [callStep] at h ⊢
      split at h
      · rename_i hclosed
        cases h
        exact ⟨alt, _, if_pos hclosed, rfl, rfl, rfl, hopen⟩
      · rename_i hclosed
        cases h
        exact ⟨alt, _, if_neg hclosed, rfl, rfl, rfl, hopen⟩
  | readTry =>
      simp only [callStep] at h ⊢
      split at h
      · rename_i d rest _
        cases h
        exact ⟨alt, receive c' st d rest, rfl, rfl, rfl, rfl, hopen⟩
      · cases h
        exact ⟨alt, ⟨.readBorrow, st, c', []⟩, rfl, rfl, rfl, rfl, hopen⟩
  | readDrain =>
      simp only [callStep] at h ⊢
      split at h
      · rename_i d rest _
        cases h
        exact ⟨alt, receive c' st d rest, rfl, rfl, rfl, rfl, hopen⟩
      · cases h
        exact ⟨alt, readReturn c' st none, rfl, rfl, rfl, rfl, hopen⟩
  | readSelect =>
      simp only [callStep] at h ⊢
      split at h
      · rename_i halt
        split at h
        · rename_i hclosed
          cases h
          refine ⟨true, ⟨.readDrain, st, c', []⟩, ?_, rfl, rfl, rfl, hopen⟩
          rw [if_pos rfl, if_pos hclosed]
        · cases h
      · split at h
        · rename_i d rest hqueue
          cases h
          exact ⟨false, receive c' st d rest, if_neg Bool.false_ne_true, rfl, rfl, rfl, hopen⟩
        · cases h
  | returned _ => cases h

/-- A call on the stream is somewhere else, under its own number and that of the shadow. -/
theorem CallsShadow.set {number : Nat → Nat} (h : CallsShadow o s s' number) {k : Nat}
    {pc : CallPc H} (hk : s.pcOf o k = some pc) (pc₁ : CallPc H) {s₁ s₁' : State H}
    (h₁ : ∀ i, s₁.pcOf o i = if i = k then some pc₁ else s.pcOf o i)
    (h₁' : ∀ i, s₁'.pcOf 0 i = if i = number k then some pc₁ else s'.pcOf 0 i) :
    CallsShadow o s₁ s₁' number := by
  obtain ⟨hplace, hdistinct⟩ := h
  have hthere : ∀ i pc', s₁.pcOf o i = some pc' → ∃ pc'', s.pcOf o i = some pc'' := by
    intro i pc' hi
    rw [h₁] at hi
    by_cases hik : i = k
    · exact ⟨pc, hik ▸ hk⟩
    · rw [if_neg hik] at hi
      exact ⟨pc', hi⟩
  constructor
  · intro j pc' hj
    rw [h₁']
    rw [h₁] at hj
    by_cases hjk : j = k
    · subst hjk
      rw [if_pos rfl] at hj ⊢
      exact hj
    · rw [if_neg hjk] at hj
      rw [if_neg fun hn => hjk (hdistinct j k pc' pc hj hk hn)]
      exact hplace j pc' hj
  · intro i j pc' pc'' hi hj hn
    obtain ⟨pci, hi⟩ := hthere i pc' hi
    obtain ⟨pcj, hj⟩ := hthere j pc'' hj
    exact hdistinct i j pci pcj hi hj hn

/-- A call is made on the stream. -/
theorem CallsShadow.make {number : Nat → Nat} (h : CallsShadow o s s' number) {k k' : Nat}
    (hk' : s'.pcOf 0 k' = none) (pc₁ : CallPc H) {s₁ s₁' : State H}
    (h₁ : ∀ i, s₁.pcOf o i = if i = k then some pc₁ else s.pcOf o i)
    (h₁' : ∀ i, s₁'.pcOf 0 i = if i = k' then some pc₁ else s'.pcOf 0 i) :
    CallsShadow o s₁ s₁' (Function.update number k k') := by
  obtain ⟨hplace, hdistinct⟩ := h
  have hold : ∀ i pc, i ≠ k → s₁.pcOf o i = some pc →
      s.pcOf o i = some pc ∧ Function.update number k k' i = number i ∧ number i ≠ k' := by
    intro i pc hik hi
    rw [h₁, if_neg hik] at hi
    refine ⟨hi, Function.update_of_ne hik _ _, fun hn => ?_⟩
    have hnone := hplace i pc hi
    rw [hn, hk'] at hnone
    cases hnone
  constructor
  · intro j pc hj
    by_cases hjk : j = k
    · subst hjk
      rw [h₁, if_pos rfl] at hj
      rw [Function.update_self, h₁', if_pos rfl]
      exact hj
    · obtain ⟨hj, hnumber, hne⟩ := hold j pc hjk hj
      rw [hnumber, h₁', if_neg hne]
      exact hplace j pc hj
  · intro i j pc pc' hi hj hn
    by_cases hik : i = k
    · by_cases hjk : j = k
      · rw [hik, hjk]
      · obtain ⟨-, hnumber, hne⟩ := hold j pc' hjk hj
        rw [hik, Function.update_self, hnumber] at hn
        exact absurd hn.symm hne
    · obtain ⟨hi, hnumber, hne⟩ := hold i pc hik hi
      rw [hnumber] at hn
      by_cases hjk : j = k
      · rw [hjk, Function.update_self] at hn
        exact absurd hn hne
      · obtain ⟨hj, hnumber', -⟩ := hold j pc' hjk hj
        rw [hnumber'] at hn
        exact hdistinct i j pc pc' hi hj hn

/-- Calls elsewhere do not matter. -/
theorem CallsShadow.congr {number : Nat → Nat} (h : CallsShadow o s s' number) {s₁ s₁' : State H}
    (h₁ : ∀ i, s₁.pcOf o i = s.pcOf o i) (h₁' : ∀ i, s₁'.pcOf 0 i = s'.pcOf 0 i) :
    CallsShadow o s₁ s₁' number := by
  obtain ⟨hplace, hdistinct⟩ := h
  constructor
  · intro j pc hj
    rw [h₁']
    exact hplace j pc ((h₁ j).symm.trans hj)
  · intro i j pc pc' hi hj
    exact hdistinct i j pc pc' ((h₁ i).symm.trans hi) ((h₁ j).symm.trans hj)

/-- What a call on stream `o₁` shows of stream `o`. -/
theorem callEvents_effects (o o₁ k : Nat) (t : UInt32) (effects : List (CallEffect H)) :
    (effects.map (callEvent k o₁)).flatMap (Event.effects o t) =
      if o₁ = o then (effects.flatMap CallEffect.payload).map Effect.delivered else [] := by
  induction effects with
  | nil => simp
  | cons e effects ih =>
      rw [List.map_cons, List.flatMap_cons, ih]
      cases e with
      | enqueued f => rfl
      | delivered d =>
          by_cases ho : o₁ = o
          · simp [callEvent, Event.effects, CallEffect.payload, ho]
          · simp [callEvent, Event.effects, ho]

theorem callEvents_unread (o₁ k : Nat) (effects : List (CallEffect H)) :
    (effects.map (callEvent k o₁)).flatMap Event.frameRead = [] := by
  refine List.flatMap_eq_nil_iff.mpr fun e he => ?_
  obtain ⟨eff, -, rfl⟩ := List.mem_map.mp he
  cases eff with
  | _ => rfl

/-- A call on the stream goes on in the shadow as well. -/
theorem casts_call (h : Shadow o t s s') (hroom : s'.writeChannel.HasRoom) {k : Nat} {alt : Bool}
    {c : Call H} {st : Stream H} {out : CallOutcome H} (get : s.calls[k]? = some c)
    (obj : s.objs[c.stream]? = some st) (outcome : callStep alt c.pc st s.writeChannel = some out) :
    Casts o t ⟨s, .call k alt, { s with
      calls := s.calls.set k { c with pc := out.pc }
      objs := s.objs.set c.stream out.stream
      writeChannel := out.channel }, out.effects.map (callEvent k c.stream)⟩ s' := by
  obtain ⟨number, hcalls⟩ := h.calls
  have hchannel : out.channel.isOpen = s.writeChannel.isOpen := (callStep_keeps outcome).channel
  by_cases ho : c.stream = o
  · obtain ⟨alt', out', outcome', hpc, hstream, heffects, hchannel'⟩ :=
      callStep_shadow h.channel hroom outcome
    have hk := pcOf_of_get get
    rw [ho] at hk obj
    have get' := pcOf_eq_some.mp (hcalls.1 k c.pc hk)
    have hobjs' : s'.objs = [st] := by
      rw [h.objs, obj]
      rfl
    have hs' : s'.step (.call (number k) alt') = some ({ s' with
        calls := s'.calls.set (number k) { stream := 0, pc := out'.pc }
        objs := [out.stream]
        writeChannel := out'.channel }, out'.effects.map (callEvent (number k) 0)) := by
      simp [State.step, State.stepCall, get', hobjs', outcome', hstream]
    refine casts_one hs' { h with
      channel := hchannel'.trans hchannel.symm
      objs := ?_
      calls := ⟨number, hcalls.set hk out.pc (fun i => ?_) fun i => ?_⟩ } ?_ ?_
    · rw [ho, List.getElem?_set_self (List.getElem?_eq_some_iff.mp obj).1]
      rfl
    · exact (pcOf_set get rfl o i).trans (by simp [ho])
    · exact (pcOf_set get' rfl 0 i).trans (by simp [hpc])
    · rw [callEvents_unread, callEvents_unread]
      rfl
    · simp [stepEffects, State.sweeps, callEvents_effects, ho, heffects]
  · refine casts_none { h with
      channel := h.channel.trans hchannel.symm
      objs := ?_
      calls := ⟨number, hcalls.congr (fun i => ?_) fun i => rfl⟩ } ?_ ?_
    · rw [h.objs, List.getElem?_set_ne ho]
    · exact (pcOf_set get rfl o i).trans (if_neg fun hi => ho hi.1)
    · simp [framesRead, callEvents_unread]
    · simp [effectsOn, stepEffects, State.sweeps, callEvents_effects, ho]

/-- A call on the stream is dropped in the shadow as well. -/
theorem casts_cancel (h : Shadow o t s s') {k : Nat} {c : Call H} {st st₁ : Stream H}
    {pc : CallPc H} (get : s.calls[k]? = some c) (obj : s.objs[c.stream]? = some st)
    (outcome : callCancel c.pc st = some (pc, st₁)) :
    Casts o t ⟨s, .cancel k, { s with
      calls := s.calls.set k { c with pc := pc }
      objs := s.objs.set c.stream st₁ }, []⟩ s' := by
  obtain ⟨number, hcalls⟩ := h.calls
  by_cases ho : c.stream = o
  · have hk := pcOf_of_get get
    rw [ho] at hk obj
    have get' := pcOf_eq_some.mp (hcalls.1 k c.pc hk)
    have hobjs' : s'.objs = [st] := by
      rw [h.objs, obj]
      rfl
    have hs' : s'.step (.cancel (number k)) = some ({ s' with
        calls := s'.calls.set (number k) { stream := 0, pc := pc }
        objs := [st₁] }, []) := by
      simp [State.step, State.cancelCall, get', hobjs', outcome]
    refine casts_one hs' { h with
      objs := ?_
      calls := ⟨number, hcalls.set hk pc (fun i => ?_) fun i => ?_⟩ } rfl rfl
    · rw [ho, List.getElem?_set_self (List.getElem?_eq_some_iff.mp obj).1]
      rfl
    · exact (pcOf_set get rfl o i).trans (by simp [ho])
    · exact (pcOf_set get' rfl 0 i).trans (by simp)
  · refine casts_none { h with
      objs := ?_
      calls := ⟨number, hcalls.congr (fun i => ?_) fun i => rfl⟩ } rfl rfl
    · rw [h.objs, List.getElem?_set_ne ho]
    · exact (pcOf_set get rfl o i).trans (if_neg fun hi => ho hi.1)

/-- A call is made on the stream in the shadow as well. -/
theorem casts_invoke (h : Shadow o t s s') {o₁ : Nat} {r : Request H} (hmem : o₁ ∈ s.handed) :
    Casts o t ⟨s, .invoke o₁ r, { s with
      calls := s.calls ++ [{ stream := o₁, pc := r.entry }] }, [.invoked o₁ r]⟩ s' := by
  obtain ⟨number, hcalls⟩ := h.calls
  by_cases ho : o₁ = o
  · subst ho
    have hs' : s'.step (.invoke 0 r) = some ({ s' with
        calls := s'.calls ++ [{ stream := 0, pc := r.entry }] }, [.invoked 0 r]) := by
      simp only [State.step, State.invoke, if_pos (h.handed hmem)]
    have hfresh : s'.pcOf 0 s'.calls.length = none := by
      rw [State.pcOf, List.getElem?_eq_none (Nat.le_refl _)]
    refine casts_one hs' { h with
      calls := ⟨Function.update number s.calls.length s'.calls.length,
        hcalls.make hfresh r.entry (fun i => ?_) fun i => ?_⟩ } rfl rfl
    · exact (pcOf_append rfl o₁ i).trans (by simp)
    · exact (pcOf_append rfl 0 i).trans (by simp)
  · refine casts_none { h with
      calls := ⟨number, hcalls.congr (fun i => ?_) fun i => rfl⟩ } rfl rfl
    exact (pcOf_append rfl o i).trans (if_neg fun hi => ho hi.1)

/-! ## The rest of the connection -/

/-- A call of `close` sets `gone_away`. -/
theorem path_goesAway (h : Shadow o t s s') (hhere : s.goneAway = false) :
    ∃ path s'', (connection H).Path s' path s'' ∧ Alike o t [] path ∧
      Shadow o t { s with goneAway := true } s'' := by
  have hhere' : s'.goneAway = false := h.gone.trans hhere
  let s₁ : State H := { s' with closes := s'.closes ++ [.swap] }
  let s₂ : State H := { s₁ with
    goneAway := true
    closes := s₁.closes.set s'.closes.length .loadLast }
  have hclose : (connection H).step s' .close = some (s₁, []) := rfl
  have hswap : (connection H).step s₁ (.closeStep s'.closes.length) = some (s₂, []) := by
    simp [connection, State.step, State.stepClose, thenClose, hhere', s₁, s₂]
  exact ⟨_, s₂, .step hclose (.one hswap), ⟨rfl, rfl⟩, { h with gone := rfl }⟩

/-- The write task fails. -/
theorem path_writeFails (h : Shadow o t s s') :
    ∃ path s'', (connection H).Path s' path s'' ∧ Alike o t [] path ∧
      Shadow o t { s with writeChannel := { queue := [], isOpen := false } } s'' := by
  let s₁ : State H := { s' with writeChannel := { queue := [], isOpen := false } }
  have hfail : (connection H).step s' .writeFail = some (s₁, []) := rfl
  exact ⟨_, s₁, .one hfail, ⟨rfl, rfl⟩, { h with channel := rfl }⟩

/-- The write task empties its channel. -/
theorem path_flushes (h : Shadow o t s s') :
    ∃ path s'', (connection H).Path s' path s'' ∧ Alike o t [] path ∧ Shadow o t s s'' ∧
      s''.writeChannel.HasRoom := by
  cases hopen : s'.writeChannel.isOpen with
  | false =>
      refine ⟨[], s', .stay s', ⟨rfl, rfl⟩, h, fun hthere => ?_⟩
      rw [hopen] at hthere
      cases hthere
  | true =>
      generalize hqueue : s'.writeChannel.queue = queue
      induction queue generalizing s' with
      | nil => exact ⟨[], s', .stay s', ⟨rfl, rfl⟩, h, fun _ => hqueue⟩
      | cons f rest ih =>
          let s₁ : State H := { s' with writeChannel := { s'.writeChannel with queue := rest } }
          have hwrite : (connection H).step s' .write = some (s₁, []) := by
            simp only [connection, State.step, State.write, hqueue, if_pos hopen, s₁]
          have h₁ : Shadow o t s s₁ := { h with channel := h.channel }
          obtain ⟨path, s'', hpath, hunseen, hshadow, hroom⟩ := ih h₁ hopen rfl
          have hone : Alike o t [] [(⟨s', .write, s₁, []⟩ : TakenStep H)] := ⟨rfl, rfl⟩
          exact ⟨_, s'', .step hwrite hpath, (alike_compares o t).append hone hunseen, hshadow,
            hroom⟩

/-- Of a step apart from the streams only its mark on the connection is seen. -/
theorem casts_apart (h : Shadow o t s s') {a : Action H} {s₁ : State H} {es : List (Event H)}
    (hunswept : s.sweeps o a = false) (hapart : Apart s a s₁ es) : Casts o t ⟨s, a, s₁, es⟩ s' := by
  have hread : es.flatMap Event.frameRead = [] := List.flatMap_eq_nil_iff.mpr fun e he => by
    rcases hapart.events e he with ⟨k, g, rfl⟩ | ⟨k, p, rfl⟩
    · rfl
    · rfl
  have heffects : es.flatMap (Event.effects o t) = [] := List.flatMap_eq_nil_iff.mpr fun e he => by
    rcases hapart.events e he with ⟨k, g, rfl⟩ | ⟨k, p, rfl⟩
    · rfl
    · rfl
  have hgone : ∃ path s'', (connection H).Path s' path s'' ∧ Alike o t [] path ∧
      Shadow o t { s with goneAway := s₁.goneAway } s'' := by
    by_cases hsame : s₁.goneAway = s.goneAway
    · exact ⟨[], s', .stay s', ⟨rfl, rfl⟩, { h with gone := h.gone.trans hsame.symm }⟩
    · cases hbefore : s.goneAway with
      | true => exact absurd ((hapart.gone hbefore).trans hbefore.symm) hsame
      | false =>
          rw [hbefore] at hsame
          rw [eq_true_of_ne_false hsame]
          exact path_goesAway h hbefore
  obtain ⟨path, s'', hpath, hunseen, h₁⟩ := hgone
  have hfails : ∃ path' s₂, (connection H).Path s'' path' s₂ ∧ Alike o t [] path' ∧
      Shadow o t { s with goneAway := s₁.goneAway, writeChannel := s₁.writeChannel } s₂ := by
    by_cases hsame : s₁.writeChannel.isOpen = s.writeChannel.isOpen
    · exact ⟨[], s'', .stay s'', ⟨rfl, rfl⟩, { h₁ with channel := h₁.channel.trans hsame.symm }⟩
    · have hclosed : s₁.writeChannel.isOpen = false := eq_false_of_ne_true fun hthere =>
        hsame (hthere.trans (hapart.channel hthere).symm)
      obtain ⟨path', s₂, hpath', hunseen', h₂⟩ := path_writeFails h₁
      exact ⟨path', s₂, hpath', hunseen', { h₂ with channel := h₂.channel.trans hclosed.symm }⟩
  obtain ⟨path', s₂, hpath', hunseen', h₂⟩ := hfails
  obtain ⟨number, hcalls⟩ := h₂.calls
  have hafter : Shadow o t s₁ s₂ := {
    task := h₂.task.trans (by rw [hapart.readTask])
    streams := by rw [hapart.streams]; exact h₂.streams
    last := h₂.last.trans (by rw [hapart.last])
    gone := h₂.gone
    channel := h₂.channel
    objs := h₂.objs.trans (by rw [hapart.objs])
    workers := by rw [hapart.workers]; exact h₂.workers
    handed := by rw [hapart.handed]; exact h₂.handed
    calls := ⟨number, hcalls.congr (pcOf_congr hapart.calls o) fun _ => rfl⟩ }
  have hcast : Casts o t ⟨s, a, s₁, es⟩ s₂ := by
    refine casts_none hafter ?_ ?_
    · rw [framesRead, List.flatMap_singleton, hread]
      rfl
    · rw [effectsOn, List.flatMap_singleton, stepEffects, hunswept, heffects]
      rfl
  exact (hcast.after (alike_compares o t) hpath' hunseen').after (alike_compares o t) hpath hunseen

/-! ## Every step and every run -/

variable {guard : List (Event H) → State H → Action H → Prop} {evs : List (Event H)}

/-- **Shadows.**  Every step casts a shadow. -/
theorem casts_step (hrun : (connection H).Run guard evs s) (hreg' : Registry s')
    (h : Shadow o t s s') (hroom : s'.writeChannel.HasRoom) {a : Action H} {s₁ : State H}
    {es : List (Event H)} (hs : s.step a = some (s₁, es)) (hafter : s₁.Awaits o t) :
    Casts o t ⟨s, a, s₁, es⟩ s' := by
  have hreg := registry_run hrun
  have hbefore := awaits_before hrun hs hafter
  have haside : a.isAside = true → Casts o t ⟨s, a, s₁, es⟩ s' := fun ha => by
    have hunswept : s.sweeps o a = false := by
      cases a with
      | readTask pick => cases ha
      | _ => rfl
    cases aside_step ha hs with
    | call k alt c st out action get obj outcome state events =>
        subst action state events
        exact casts_call h hroom get obj outcome
    | cancel k c st st' pc action get obj outcome state events =>
        subst action state events
        exact casts_cancel h get obj outcome
    | invoke o₁ r action mem state events =>
        subst action state events
        exact casts_invoke h mem
    | apart hapart => exact casts_apart h hunswept hapart
  cases a with
  | read f => exact casts_read h hs
  | readFail => exact casts_readEnds h (.inl rfl) hs
  | readPanic => exact casts_readEnds h (.inr rfl) hs
  | readTask pick => exact casts_readTask hreg hreg' h hroom hs hbefore hafter
  | workerRecv i => exact casts_workerRecv h hs
  | workerRun i => exact casts_workerRun hreg h hs hbefore
  | _ => exact haside rfl

theorem shadow_initial (hawaits : (State.initial H).Awaits o t) :
    Shadow o t (State.initial H) (State.initial H) := by
  have hlast : (0 : UInt32) < t := by
    rcases hawaits with hid | ⟨-, -, hlast, -⟩
    · cases hid
    · exact hlast
  have hnone : ∀ j pc, (State.initial H).pcOf o j ≠ some pc := fun j pc hj => by cases hj
  exact {
    task := rfl
    streams := fun k => (ite_self none).symm
    last := (if_pos hlast).symm
    gone := rfl
    channel := rfl
    objs := rfl
    workers := fun i => ⟨rfl, (ite_self []).symm, rfl⟩
    handed := fun hmem => absurd hmem List.not_mem_nil
    calls := ⟨id, fun j pc hj => absurd hj (hnone j pc),
      fun i _ pc _ hi => absurd hi (hnone i pc)⟩ }

/-- Every run has a shadow for each stream. -/
theorem shadow_run {hist : List (TakenStep H)} (h : (connection H).History guard hist s)
    (hawaits : s.Awaits o t) : ∃ hist' s', (connection H).History Machine.free hist' s' ∧
      Shadow o t s s' ∧ Alike o t hist hist' := by
  refine h.simulated (alike_compares o t)
    (fun _ _ hhist hx hafter => awaits_before hhist.run hx hafter) shadow_initial ?_ hawaits
  intro hist x hist' s' hhist hx hafter hhist' hshadow
  obtain ⟨flush, s'', hflush, hunseen, hshadow, hroom⟩ := path_flushes hshadow
  have hreg' := registry_run (hhist'.append hflush).run
  exact (casts_step hhist.run hreg' hshadow hroom hx hafter).after (alike_compares o t) hflush
    hunseen

theorem mem_effects_accepted {e : Event H} {f : SynStreamFrame H} :
    .accepted f ∈ Event.effects o t e ↔ e = .accepted o f := by
  constructor
  · intro h
    cases e with
    | accepted o' g =>
        simp only [Event.effects] at h
        split at h
        · rename_i ho
          subst ho
          cases List.mem_singleton.mp h
          rfl
        · cases h
    | worked o' _ | pushed o' _ _ | removed o' _ | delivered o' _ =>
        simp only [Event.effects] at h
        split at h
        · cases List.mem_singleton.mp h
        · cases h
    | enqueued src g =>
        cases src with
        | readTask =>
            cases g with
            | rstStream r =>
                simp only [Event.effects] at h
                split at h
                · cases List.mem_singleton.mp h
                · cases h
            | _ => cases h
        | _ => cases h
    | _ => cases h
  · rintro rfl
    simp [Event.effects]

/-- What is accepted shows among the effects. -/
theorem accepted_effect {hist : List (TakenStep H)} {f : SynStreamFrame H} :
    .accepted o f ∈ hist.flatMap Machine.Taken.events ↔ .accepted f ∈ effectsOn o t hist := by
  have hstep : ∀ x : TakenStep H,
      .accepted f ∈ stepEffects o t x ↔ .accepted o f ∈ x.events := by
    intro x
    have hswept : .accepted f ∉
        if x.before.sweeps o x.action then [(.swept : Effect H)] else [] := by
      split
      · simp
      · simp
    rw [stepEffects, List.mem_append, List.mem_flatMap]
    simp only [hswept, false_or, mem_effects_accepted, exists_eq_right]
  rw [effectsOn, List.mem_flatMap, List.mem_flatMap]
  simp only [hstep]

/-- **Streams do not interfere.**  For every stream of a run there is a run on the
frames without those of other streams, in which its id is accepted as well, and in
which the same is done to it, in the same order: the handler is started, payloads are
pushed or dropped, the stream is closed, replied to and removed, and SYN_STREAM and DATA
frames with its id are answered. -/
theorem streams_isolated {hist : List (TakenStep H)} (h : (connection H).History guard hist s)
    {f : SynStreamFrame H} (haccepted : .accepted o f ∈ hist.flatMap Machine.Taken.events) :
    ∃ hist' s', (connection H).History Machine.free hist' s' ∧
      framesRead hist' = (framesRead hist).filter (keeps f.streamId) ∧
      .accepted 0 f ∈ hist'.flatMap Machine.Taken.events ∧
      effectsOn 0 f.streamId hist' = effectsOn o f.streamId hist := by
  have hid := accepted_id h.run haccepted
  obtain ⟨hist', s', hhist', -, halike⟩ := shadow_run h (.inl hid)
  refine ⟨hist', s', hhist', halike.read, ?_, halike.effects⟩
  rw [accepted_effect, halike.effects, ← accepted_effect]
  exact haccepted

/-- Two streams whose frames take turns. -/
theorem streams_isolated_twoStreams : ∃ hist s,
    (connection Unit).History Machine.free hist s ∧ (framesRead hist).length = 3 ∧
      ((framesRead hist).filter (keeps 3)).length = 1 ∧
      ∃ hist' s', (connection Unit).History Machine.free hist' s' ∧
        framesRead hist' = (framesRead hist).filter (keeps 3) ∧
        .accepted 0 (plainSyn 3 0) ∈ hist'.flatMap Machine.Taken.events ∧
        effectsOn 0 3 hist' = effectsOn 1 3 hist := by
  obtain ⟨hist, s, h, hcheck⟩ := Machine.exists_history_of_trace (connection Unit) Machine.free
    (registers (plainSyn 1 0) ++ registers (plainSyn 3 0) ++ routes plainReset ++
      applies (.synStream (plainSyn 3 0)))
    (fun hist _ => decide (.accepted 1 (plainSyn 3 0) ∈ hist.flatMap Machine.Taken.events ∧
      (framesRead hist).length = 3 ∧ ((framesRead hist).filter (keeps 3)).length = 1))
    (by decide +kernel)
  rw [decide_eq_true_eq] at hcheck
  obtain ⟨haccepted, hcount, hkept⟩ := hcheck
  exact ⟨hist, s, h, hcount, hkept, streams_isolated h haccepted⟩

end SpdyStream.Session
