/-
  Session/AtRest.lean --- where the connection rests.

  When the connection has no own step to take, everything that was put into it has been
  worked off: the workers are idle, every frame has been written, and whatever still waits
  waits for the peer, for a handler, or for a timeout (`settled_iff`).  In particular no
  task waits for another one, so there is no deadlock.
-/
import SpdyStream.Session.Settling
import SpdyStream.Session.Teardown
import SpdyStream.Session.WriteOrder

set_option autoImplicit false

namespace SpdyStream.Session

open SpdyStream.Foundation
open SpdyStream.Framing

variable {H : Type}

/-! ## At rest -/

/-- Where a call can rest on its stream. -/
inductive CallAtRest (st : Stream H) : CallPc H → Prop where
  | returned (r : CallResult) : CallAtRest st (.returned r)
  /-- no reply has been sent or received -/
  | unreplied (data : Bytes) (fin : Bool) (replied : st.replied = false) :
      CallAtRest st (.writeWait data fin st.notifies)
  /-- the peer has sent nothing more, and has not ended -/
  | noData (queue : st.dataQueue = []) (here : st.remoteClosed = false) :
      CallAtRest st .readSelect
  /-- another call is waiting for data -/
  | behind (locked : st.dataLocked = true) (queue : st.dataQueue = [])
      (here : st.remoteClosed = false) : CallAtRest st .readLock

/-- What is true where the connection rests. -/
structure AtRest (s : State H) : Prop where
  readTask : s.readTask = .reading ∨ s.readTask = .finished ∨ s.readTask = .dead
  workers : ∀ i, (s.workers i).queue = [] ∧ (s.workers i).todo = []
  written : s.writeChannel.queue = []
  calls : ∀ c ∈ s.calls, ∃ st, s.objs[c.stream]? = some st ∧ CallAtRest st c.pc
  closes : ∀ c ∈ s.closes, c = .returned ∨ c = .drain ∧ s.streams.keys ≠ []
  pings : ∀ p ∈ s.pings, (∃ r, p = .returned r) ∨ ∃ id, p = .wait id .waiting

/-! ## Who waits, and for whom -/

/-- With nothing in it the write channel takes every frame, or its receiver is gone. -/
theorem send_of_empty {c : Channel H} (h : c.queue = []) (f : Frame H) : c.send f ≠ .full := by
  unfold Channel.send
  split
  · simp
  · have hroom : c.queue.length < writeCapacity := by
      rw [h]
      exact show 0 < writeCapacity by decide
    rw [if_pos hroom]
    simp

/-- A send that is waited for waits for room. -/
theorem full_of_sendIgnoring {s : State H} {src : Source} {f : Frame H}
    (h : s.sendIgnoring src f = none) : s.writeChannel.send f = .full := by
  unfold State.sendIgnoring at h
  split at h
  · assumption
  · cases h
  · cases h

theorem full_of_sendThen {c : Channel H} {st : Stream H} {f : Frame H} {next : CallPc H}
    (h : sendThen c st f next = none) : c.send f = .full := by
  unfold sendThen at h
  split at h
  · assumption
  · cases h
  · cases h

variable {guard : List (Event H) → State H → Action H → Prop} {evs : List (Event H)} {s : State H}

/-- The write task stops only when there is nothing to write. -/
theorem written_of_settled (h : (connection H).Run guard evs s) (hwrite : s.write = none) :
    s.writeChannel.queue = [] := by
  cases hopen : s.writeChannel.isOpen with
  | false => exact queue_of_closed h hopen
  | true =>
      unfold State.write at hwrite
      split at hwrite
      · assumption
      · rw [if_pos hopen] at hwrite
        cases hwrite

/-- The loop of the teardown never waits. -/
theorem unlocked_of_settled (hreg : Registry s) (hread : ∀ pick, s.readStep pick = none) :
    s.streamsLocked = false := by
  have hnow := hread 0
  unfold State.readStep at hnow
  cases hpc : s.readTask with
  | inUse f =>
      have hsound := hreg.task
      rw [hpc] at hsound
      exact absurd hsound id
  | sweep rest =>
      simp only [hpc] at hnow
      cases rest with
      | nil => simp at hnow
      | cons o rest => simp at hnow
  | _ => rw [State.streamsLocked, hpc]

/-- The read task stops in `read_frame`, at its end, or where it has an answer to send and
the write channel no room. -/
theorem readTask_of_settled (hreg : Registry s) (hworkers : ∀ i, (s.workers i).queue = [])
    (hread : ∀ pick, s.readStep pick = none) :
    (s.readTask = .reading ∨ s.readTask = .finished ∨ s.readTask = .dead) ∨
      ∃ f, s.readTask = .respond f ∧ s.writeChannel.send f = .full := by
  have hlock := unlocked_of_settled hreg hread
  have hnow := hread 0
  unfold State.readStep at hnow
  cases hpc : s.readTask with
  | reading => exact .inl (.inl rfl)
  | finished => exact .inl (.inr (.inl rfl))
  | dead => exact .inl (.inr (.inr rfl))
  | inUse f | sweep rest =>
      rw [State.streamsLocked, hpc] at hlock
      cases hlock
  | respond f =>
      simp only [hpc, Option.map_eq_none_iff] at hnow
      exact .inr ⟨f, rfl, full_of_sendIgnoring hnow⟩
  | forward o f =>
      have hroom : (s.workers (workerIdx f.target)).queue.length < workerCapacity := by
        rw [hworkers]
        exact show 0 < workerCapacity by decide
      simp only [hpc, State.forward, if_pos hroom] at hnow
      cases hnow
  | loadLast f | loadGoneAway f =>
      simp only [hpc] at hnow
      split at hnow
      · cases hnow
      · cases hnow
  | _ =>
      simp only [hpc] at hnow
      cases hnow

/-- A worker stops only when it has nothing to do. -/
theorem worker_of_settled (h : (connection H).Run guard evs s) (hlock : s.streamsLocked = false)
    {i : Fin nWorkers} (hrecv : s.workerRecv i = none) (hrun : s.workerRun i = none) :
    (s.workers i).queue = [] ∧ (s.workers i).todo = [] := by
  have htodo : (s.workers i).todo = [] := by
    cases htodo : (s.workers i).todo with
    | nil => rfl
    | cons op rest =>
        have hne : (s.workers i).todo ≠ [] := by
          rw [htodo]
          exact List.cons_ne_nil _ _
        obtain ⟨k, hk, -⟩ := (workers_sound h i).todo hne
        rw [State.ids, List.getElem?_map] at hk
        obtain ⟨st, hst, -⟩ := Option.map_eq_some_iff.mp hk
        simp only [State.workerRun, htodo, Option.map_eq_none_iff] at hrun
        cases op with
        | pushData data => simp [State.runOp, hst] at hrun
        | removeStream =>
            have hfree : ∀ w, { s with workers := w }.streamsLocked = false := fun _ => hlock
            simp [State.runOp, hst, hfree] at hrun
        | _ => cases hrun
  refine ⟨?_, htodo⟩
  unfold State.workerRecv at hrecv
  rw [htodo] at hrecv
  cases hqueue : (s.workers i).queue with
  | nil => rfl
  | cons m rest =>
      rw [hqueue] at hrecv
      cases hrecv

/-- Where a call has no step to take. -/
inductive StuckCall (st : Stream H) (c : Channel H) : CallPc H → Prop where
  | returned (r : CallResult) : StuckCall st c (.returned r)
  | waits (data : Bytes) (fin : Bool) : StuckCall st c (.writeWait data fin st.notifies)
  | locked (locked : st.dataLocked = true) : StuckCall st c .readLock
  | noData (queue : st.dataQueue = []) (here : st.remoteClosed = false) : StuckCall st c .readSelect
  /-- it waits for room in the write channel -/
  | full (pc : CallPc H) (f : Frame H) (sends : pc.sends st = some f) (full : c.send f = .full) :
      StuckCall st c pc

theorem stuckCall_of_none {pc : CallPc H} {st : Stream H} {c : Channel H}
    (hstuck : ∀ alt, callStep alt pc st c = none) : StuckCall st c pc := by
  have htake := hstuck false
  have hclose := hstuck true
  cases pc with
  | returned r => exact .returned r
  | replySend _ _ | writeSend _ _ | resetSend _ => exact .full _ _ rfl (full_of_sendThen htake)
  | writeWait data fin seen =>
      simp only [callStep] at htake
      split at htake
      · rename_i hseen
        rw [← hseen]
        exact .waits data fin
      · cases htake
  | readLock =>
      simp only [callStep] at htake
      split at htake
      · exact .locked ‹_›
      · cases htake
  | readSelect =>
      refine .noData ?_ ?_
      · cases hqueue : st.dataQueue with
        | nil => rfl
        | cons d rest => simp [callStep, hqueue] at htake
      · cases hclosed : st.remoteClosed with
        | false => rfl
        | true => simp [callStep, hclosed] at hclose
  | readTry | readDrain =>
      simp only [callStep] at htake
      split at htake
      · cases htake
      · cases htake
  | readBorrow =>
      simp only [callStep] at htake
      split at htake
      · cases htake
      · cases htake
  | _ => simp [callStep] at htake

theorem StuckCall.owesNotify {pc : CallPc H} {st : Stream H} {c : Channel H}
    (h : StuckCall st c pc) : pc.owesNotify = false := by
  cases h with
  | full pc f sends full =>
      cases pc with
      | replyStoreReplied _ | replyNotify _ => cases sends
      | _ => rfl
  | _ => rfl

/-- No reply is between its store and its notification. -/
theorem notified_of_settled (hworkers : ∀ i, (s.workers i).todo = [])
    (hcalls : ∀ c ∈ s.calls, c.pc.owesNotify = false) (o : Nat) : ¬ s.Notifying o := by
  rintro (hany | ⟨i, -, hhead⟩)
  · obtain ⟨j, pc, hpc, howes⟩ := anyCall_iff.mp hany
    have hnot := hcalls _ (List.mem_of_getElem? (pcOf_eq_some.mp hpc))
    exact absurd howes (ne_true_of_eq_false hnot)
  · rw [hworkers i] at hhead
    cases hhead

/-! ## The connection at rest -/

/-- What is stuck is at rest, or waits for room in the write channel. -/
theorem callAtRest_of_stuck (h : (connection H).Run guard evs s)
    (hworkers : ∀ i, (s.workers i).todo = []) (hstuck : ∀ k alt, s.stepCall k alt = none)
    {c : Call H} (hc : c ∈ s.calls) :
    ∃ st, s.objs[c.stream]? = some st ∧ (CallAtRest st c.pc ∨
      ∃ f, c.pc.sends st = some f ∧ s.writeChannel.send f = .full) := by
  have hpcs : ∀ {o j : Nat} {pc : CallPc H} {st : Stream H}, s.pcOf o j = some pc →
      s.objs[o]? = some st → StuckCall st s.writeChannel pc := by
    intro o j pc st hpc hst
    refine stuckCall_of_none fun alt => ?_
    cases hout : callStep alt pc st s.writeChannel with
    | none => rfl
    | some out =>
        have hnone := hstuck j alt
        simp [State.stepCall, pcOf_eq_some.mp hpc, hst, hout] at hnone
  have hobj : ∀ {o j : Nat} {pc : CallPc H}, s.pcOf o j = some pc → ∃ st, s.objs[o]? = some st := by
    intro o j pc hpc
    obtain ⟨k, hk⟩ := call_id h (pcOf_eq_some.mp hpc)
    rw [State.ids, List.getElem?_map] at hk
    obtain ⟨st, hst, -⟩ := Option.map_eq_some_iff.mp hk
    exact ⟨st, hst⟩
  obtain ⟨j, hj⟩ := List.getElem?_of_mem hc
  have hpc := pcOf_of_get hj
  obtain ⟨st, hst⟩ := hobj hpc
  refine ⟨st, hst, ?_⟩
  have hcall := hpcs hpc hst
  generalize hcpc : c.pc = pc at hcall hpc ⊢
  cases hcall with
  | returned r => exact .inl (.returned r)
  | waits data fin =>
      refine .inl (.unreplied data fin ?_)
      cases hreplied : st.replied with
      | false => rfl
      | true =>
          -- a writer that has seen every notification waits for one that is still to come
          have hnotifying := (awake_run h c.stream).parked j _ hpc rfl
            (by rw [notifiesOf_of_get hst]; rfl) ((repliedFlag_of_get hst).trans hreplied)
          refine absurd hnotifying (notified_of_settled hworkers (fun c' hc' => ?_) c.stream)
          obtain ⟨j', hj'⟩ := List.getElem?_of_mem hc'
          obtain ⟨st', hst'⟩ := hobj (pcOf_of_get hj')
          exact (hpcs (pcOf_of_get hj') hst').owesNotify
  | locked hlocked =>
      -- the call that holds the lock is stuck too
      obtain ⟨i, pc', hi, hheld⟩ :=
        (locked_run h c.stream).holder ((dataLocked_of_get hst).trans hlocked)
      cases hpcs hi hst with
      | noData hqueue hhere => exact .inl (.behind hlocked hqueue hhere)
      | full _ f sends _ =>
          cases pc' with
          | replySend _ _ | writeSend _ _ | pollSend _ | shutdownSend | resetSend _ => cases hheld
          | _ => cases sends
      | _ => cases hheld
  | noData hqueue hhere => exact .inl (.noData hqueue hhere)
  | full _ f sends full => exact .inr ⟨f, sends, full⟩

theorem closeAtRest_of_stuck (hlock : s.streamsLocked = false)
    (hstuck : ∀ k, s.stepClose k = none) {c : CloseCall} (hc : c ∈ s.closes) :
    (c = .returned ∨ c = .drain ∧ s.streams.keys ≠ []) ∨
      ∃ lastGood, c = .sendGoAway lastGood ∧
        s.writeChannel.send (goAwayFrame lastGood) = .full := by
  obtain ⟨k, hk⟩ := List.getElem?_of_mem hc
  have hnow := hstuck k
  simp only [State.stepClose, hk] at hnow
  cases c with
  | returned => exact .inl (.inl rfl)
  | drain =>
      refine .inl (.inr ⟨rfl, fun hempty => ?_⟩)
      simp [hlock, hempty] at hnow
  | sendGoAway lastGood =>
      rw [Option.map_eq_none_iff] at hnow
      exact .inr ⟨lastGood, rfl, full_of_sendIgnoring hnow⟩
  | _ => cases hnow

theorem pingAtRest_of_stuck (hstuck : ∀ k, s.stepPing k = none) {p : PingCall} (hp : p ∈ s.pings) :
    ((∃ r, p = .returned r) ∨ ∃ id, p = .wait id .waiting) ∨
      ∃ id rx, p = .send id rx ∧ s.writeChannel.send (.ping { id }) = .full := by
  obtain ⟨k, hk⟩ := List.getElem?_of_mem hp
  have hnow := hstuck k
  simp only [State.stepPing, hk] at hnow
  cases p with
  | returned r => exact .inl (.inl ⟨r, rfl⟩)
  | wait id rx =>
      cases rx with
      | waiting => exact .inl (.inr ⟨id, rfl⟩)
      | fired | dropped => cases hnow
  | send id rx =>
      simp only at hnow
      split at hnow
      · exact .inr ⟨id, rx, rfl, ‹_›⟩
      · cases hnow
      · cases hnow
  | _ => cases hnow

theorem atRest_of_settled (h : (connection H).Run guard evs s)
    (hsettled : (connection H).Settled Action.isOwn s) : AtRest s := by
  have hreg := registry_run h
  have hread : ∀ pick, s.readStep pick = none := fun pick => hsettled (.readTask pick) rfl
  have hlock := unlocked_of_settled hreg hread
  have hwritten := written_of_settled h (hsettled .write rfl)
  have hworkers : ∀ i, (s.workers i).queue = [] ∧ (s.workers i).todo = [] := fun i =>
    worker_of_settled h hlock (hsettled (.workerRecv i) rfl) (hsettled (.workerRun i) rfl)
  exact {
    readTask := by
      rcases readTask_of_settled hreg (fun i => (hworkers i).1) hread with hpc | ⟨f, -, hfull⟩
      · exact hpc
      · exact absurd hfull (send_of_empty hwritten f)
    workers := hworkers
    written := hwritten
    calls := fun c hc => by
      obtain ⟨st, hst, hrest | ⟨f, -, hfull⟩⟩ := callAtRest_of_stuck h (fun i => (hworkers i).2)
        (fun k alt => hsettled (.call k alt) rfl) hc
      · exact ⟨st, hst, hrest⟩
      · exact absurd hfull (send_of_empty hwritten f)
    closes := fun c hc => by
      rcases closeAtRest_of_stuck hlock (fun k => hsettled (.closeStep k) rfl) hc with
        hrest | ⟨lastGood, -, hfull⟩
      · exact hrest
      · exact absurd hfull (send_of_empty hwritten _)
    pings := fun p hp => by
      rcases pingAtRest_of_stuck (fun k => hsettled (.pingStep k) rfl) hp with
        hrest | ⟨id, rx, -, hfull⟩
      · exact hrest
      · exact absurd hfull (send_of_empty hwritten _) }

theorem callStep_of_atRest {st : Stream H} {pc : CallPc H} (h : CallAtRest st pc) (alt : Bool)
    (c : Channel H) : callStep alt pc st c = none := by
  cases h with
  | returned r => rfl
  | unreplied data fin _ => simp [callStep]
  | noData queue here => cases alt <;> simp [callStep, queue, here]
  | behind locked _ _ => simp [callStep, locked]

theorem settled_of_atRest (h : AtRest s) : (connection H).Settled Action.isOwn s := by
  intro a hown
  cases a with
  | readTask pick =>
      rcases h.readTask with hpc | hpc | hpc
      · simp [connection, State.step, State.readStep, hpc]
      · simp [connection, State.step, State.readStep, hpc]
      · simp [connection, State.step, State.readStep, hpc]
  | workerRecv i =>
      simp [connection, State.step, State.workerRecv, (h.workers i).1, (h.workers i).2]
  | workerRun i => simp [connection, State.step, State.workerRun, (h.workers i).2]
  | write => simp [connection, State.step, State.write, h.written]
  | call k alt =>
      cases hk : s.calls[k]? with
      | none => simp [connection, State.step, State.stepCall, hk]
      | some c =>
          obtain ⟨st, hst, hrest⟩ := h.calls c (List.mem_of_getElem? hk)
          simp [connection, State.step, State.stepCall, hk, hst, callStep_of_atRest hrest]
  | closeStep k =>
      cases hk : s.closes[k]? with
      | none => simp [connection, State.step, State.stepClose, hk]
      | some c =>
          rcases h.closes c (List.mem_of_getElem? hk) with rfl | ⟨rfl, hkeys⟩
          · simp [connection, State.step, State.stepClose, hk]
          · simp [connection, State.step, State.stepClose, hk, hkeys]
  | pingStep k =>
      cases hk : s.pings[k]? with
      | none => simp [connection, State.step, State.stepPing, hk]
      | some p =>
          rcases h.pings p (List.mem_of_getElem? hk) with ⟨r, rfl⟩ | ⟨id, rfl⟩
          · simp [connection, State.step, State.stepPing, hk]
          · simp [connection, State.step, State.stepPing, hk]
  | _ => cases hown

/-- The connection has no own step to take exactly where everything is worked off. -/
theorem settled_iff (h : (connection H).Run guard evs s) :
    (connection H).Settled Action.isOwn s ↔ AtRest s :=
  ⟨atRest_of_settled h, settled_of_atRest⟩

/-- **The connection comes to rest.**  Whichever own steps are taken after a run, they end,
and they end where nothing is left to do and no task waits for another. -/
theorem comes_atRest (h : (connection H).Reached evs s) :
    (connection H).Comes Action.isOwn
      (fun evs s => (connection H).Reached evs s ∧ AtRest s) evs s :=
  (comes_settled (J := (connection H).Reached) (fun _ _ _ _ _ hrun hs => hrun.step trivial hs)
    h).mono fun _ _ hboth => ⟨hboth.1, (settled_iff hboth.1).mp hboth.2⟩

/-- The frames of a stream are on their way to its worker, a write is waiting for a reply
and a reader for data; then the connection comes to rest. -/
theorem comes_atRest_busy : ∃ evs s, (connection Unit).Reached evs s ∧
    s.notes = 1 ∧ s.work = 27 ∧
    (connection Unit).Comes Action.isOwn
      (fun evs s => (connection Unit).Reached evs s ∧ AtRest s) evs s := by
  obtain ⟨evs, s, h, hcheck⟩ := Machine.exists_run_of_exec (connection Unit) Machine.free
    (registers (plainSyn 1 0) ++ applies (.synStream (plainSyn 1 0)) ++
      [.invoke 0 (.writeData [1] true), .invoke 0 .readData] ++ calls 0 3 ++ calls 1 3 ++
      [.invoke 0 (.sendReply () false), .ping, .close, .read (.ping { id := 1 })])
    (fun _ s => decide (s.notes = 1 ∧ s.work = 27))
    (by decide +kernel)
  obtain ⟨hnotes, hwork⟩ := of_decide_eq_true hcheck
  exact ⟨evs, s, h, hnotes, hwork, comes_atRest h⟩

/-! ## What has been done -/

/-- Everything that was read has got to where it belongs. -/
structure TakenIn (evs : List (Event H)) : Prop where
  /-- every SYN_STREAM has been accepted or rejected -/
  decided : evs.flatMap Event.decided = evs.flatMap Event.synRead
  /-- every frame of a stream has been looked up -/
  lookedUp : evs.flatMap Event.lookupOf = evs.flatMap Event.routableRead
  /-- every operation of every frame that was found to be a stream's has been done on it,
  in the order of the frames -/
  worked : ∀ o f₀, .accepted o f₀ ∈ evs → evs.flatMap (Event.workedOn o) =
    (.synStream f₀ :: evs.flatMap (Event.foundFor o)).flatMap workerOps

/-- Nothing that was read is left behind. -/
structure WorkedOff (evs : List (Event H)) (s : State H) : Prop extends TakenIn evs where
  /-- every answer the peer is owed has been sent, if the write task is there -/
  answered : s.writeChannel.isOpen = true →
    evs.flatMap Event.answered = evs.flatMap Event.owed

theorem ReadTask.idle_of_holdsFrame {t : ReadTask H} (h : t.holdsFrame = false) :
    t.deciding = [] ∧ t.pendingLookup = [] ∧ ∀ o, t.heldFor o = [] := by
  cases t with
  | loadLast _ | loadGoneAway _ | register _ | storeLast _ _ | lookup _ | forward _ _ => cases h
  | _ => exact ⟨rfl, rfl, fun _ => rfl⟩

/-- What was found to be a stream's has been applied to it where nothing is on its way. -/
theorem applied_of_idle (h : (connection H).Run guard evs s)
    (hread : s.readTask.holdsFrame = false) (hqueues : ∀ i, (s.workers i).queue = []) {o : Nat}
    {f₀ : SynStreamFrame H} (he : .accepted o f₀ ∈ evs) :
    evs.flatMap (Event.appliedTo o) = .synStream f₀ :: evs.flatMap (Event.foundFor o) := by
  have hnone : s.inQueues o = [] := by
    rw [inQueues_eq (workers_sound h) o, Worker.queuedFor, hqueues]
    rfl
  rw [← (inOrder_of_accepted h he).order, hnone, (ReadTask.idle_of_holdsFrame hread).2.2 o,
    List.append_nil, List.append_nil]

/-- Nothing is left behind where the read task holds no frame and the workers are idle. -/
theorem takenIn_of_idle (h : (connection H).Run guard evs s)
    (hread : s.readTask.holdsFrame = false)
    (hworkers : ∀ i, (s.workers i).queue = [] ∧ (s.workers i).todo = []) : TakenIn evs := by
  obtain ⟨hdeciding, hlookup, -⟩ := ReadTask.idle_of_holdsFrame hread
  refine ⟨?_, ?_, fun o f₀ he => ?_⟩
  · rw [decided_once h, hdeciding, List.append_nil]
  · rw [lookups_eq h, hlookup, List.append_nil]
  · have htodo : (s.workers (s.home o)).todoFor o = [] := by
      rw [Worker.todoFor, (hworkers _).2]
      exact ite_self []
    rw [← applied_of_idle h hread (fun i => (hworkers i).1) he, (inOrder_of_accepted h he).done,
      htodo, List.append_nil]

/-- Every run can go on to where the connection rests. -/
theorem reaches_settled (h : (connection H).Reached evs s) :
    ∃ evs' s', (connection H).Reached (evs ++ evs') s' ∧
      (connection H).Settled Action.isOwn s' := by
  obtain ⟨path, s', -, -, hrun, hsettled⟩ :=
    (comes_settled (J := (connection H).Reached) (fun _ _ _ _ _ hrun hs => hrun.step trivial hs)
      h).path
  exact ⟨_, s', hrun, hsettled⟩

/-- At rest the read task holds no frame and owes no answer. -/
theorem AtRest.plain (h : AtRest s) : s.readTask.holdsFrame = false ∧ s.readTask.answer = none := by
  rcases h.readTask with hpc | hpc | hpc
  · rw [hpc]
    exact ⟨rfl, rfl⟩
  · rw [hpc]
    exact ⟨rfl, rfl⟩
  · rw [hpc]
    exact ⟨rfl, rfl⟩

theorem workedOff_atRest (h : (connection H).Run guard evs s) (hrest : AtRest s) :
    WorkedOff evs s := by
  refine ⟨takenIn_of_idle h hrest.plain.1 hrest.workers, fun hopen => ?_⟩
  rw [answers_once h hopen, hrest.plain.2]
  exact (List.append_nil _).symm

/-- **Nothing is left behind at rest.** -/
theorem workedOff_of_settled (h : (connection H).Reached evs s)
    (hsettled : (connection H).Settled Action.isOwn s) : WorkedOff evs s :=
  workedOff_atRest h ((settled_iff h).mp hsettled)

/-- A stream is accepted, its frames and a PING are read, and all of it is done in the
end. -/
theorem workedOff_of_settled_dataAndPing : ∃ evs s, (connection Unit).Reached evs s ∧
    .accepted 0 (plainSyn 1 0) ∈ evs ∧ .read (.ping { id := 7 }) ∈ evs ∧ WorkedOff evs s := by
  obtain ⟨evs, s, h, hcheck⟩ := Machine.exists_run_of_exec (connection Unit) Machine.free
    (registers (plainSyn 1 0) ++
      routes (.data { streamId := 1, flags := dataFlagFin, data := [7] }) ++
      [.read (.ping { id := 7 })])
    (fun evs _ => decide (.accepted 0 (plainSyn 1 0) ∈ evs ∧ .read (.ping { id := 7 }) ∈ evs))
    (by decide +kernel)
  obtain ⟨haccepted, hread⟩ := of_decide_eq_true hcheck
  obtain ⟨evs', s', h', hsettled⟩ := reaches_settled h
  exact ⟨evs ++ evs', s', h', List.mem_append_left _ haccepted, List.mem_append_left _ hread,
    workedOff_of_settled h' hsettled⟩

end SpdyStream.Session
