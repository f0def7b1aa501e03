/-
  Session/Settling.lean --- the connection comes to rest by itself.

  `State.measure` is what is left to do: first the notifications still to come, since
  each of them may send parked writers round their loop once more, then the operations.
  Every own step makes it smaller (`own_decreases`), so that there is no endless run of
  own steps, whatever the order they are taken in.
-/
import SpdyStream.Foundation.Settling
import SpdyStream.Session.OwnSteps
import SpdyStream.Session.Wakeups

set_option autoImplicit false

namespace SpdyStream.Session

open SpdyStream.Foundation
open SpdyStream.Framing

variable {H : Type}

/-! ## What is left to do -/

/-- The operations a frame costs a worker, its receipt included. -/
def frameWork (f : Frame H) : Nat := (workerOps f).length + 1

/-- The notifications a frame will bring. -/
def frameNotes (f : Frame H) : Nat := (workerOps f).count .notifyWaiters

/-- What the read task has left to do, when there are `n` streams in the map. -/
def ReadTask.work (n : Nat) : ReadTask H → Nat
  | .reading | .finished | .dead => 0
  | .finalClose | .resolvePing _ => 1
  | .inUse _ | .respond _ => 2
  | .sweep rest => rest.length + 2
  | .lockStreams => n + 3
  | .goAwayClose => n + 4
  | .storeGoneAway => n + 5
  | .forward _ f => frameWork f + 1
  | .lookup f => frameWork f + 2
  | .storeLast f _ => frameWork (.synStream f) + 2
  | .register f => frameWork (.synStream f) + 3
  | .loadGoneAway f => frameWork (.synStream f) + 4
  | .loadLast f => frameWork (.synStream f) + 5

def ReadTask.notes : ReadTask H → Nat
  | .forward _ f | .lookup f => frameNotes f
  | _ => 0

def Worker.work (w : Worker H) : Nat :=
  w.todo.length + (w.queue.map fun m => frameWork m.frame).sum

def Worker.notes (w : Worker H) : Nat :=
  w.todo.count .notifyWaiters + (w.queue.map fun m => frameNotes m.frame).sum

/-- What a call has left to do, when the waiters of its stream have been notified `n`
times.  A writer that has seen all of them stays parked. -/
def CallPc.work (n : Nat) : CallPc H → Nat
  | .replySend _ _ => 6
  | .replyStoreReplied _ => 4
  | .replyNotify _ => 3
  | .replyStoreFin => 1
  | .writeReload _ _ seen => if n = seen then 6 else 10
  | .writeWait _ _ seen => if n = seen then 5 else 9
  | .writeLoad _ _ => 8
  | .writeNotified _ _ => 7
  | .writeCheckFin _ _ => 4
  | .writeStoreFin _ => 3
  | .writeSend _ _ | .pollSend _ | .resetSend _ => 2
  | .shutdownLoad => 4
  | .shutdownSend => 3
  | .shutdownStore => 1
  | .readLock => 5
  | .readTry => 4
  | .readBorrow => 3
  | .readSelect => 2
  | .readDrain => 1
  | .returned _ => 0

def CallPc.notes : CallPc H → Nat
  | .replySend _ _ | .replyStoreReplied _ | .replyNotify _ => 1
  | _ => 0

def CloseCall.work : CloseCall → Nat
  | .swap => 6
  | .loadLast => 5
  | .sendGoAway _ => 4
  | .broadcast => 2
  | .drain => 1
  | .returned => 0

def PingCall.work : PingCall → Nat
  | .fetchId => 5
  | .insert _ => 4
  | .send _ _ => 3
  | .wait _ _ => 1
  | .returned _ => 0

/-- The notifications still to come. -/
def State.notes (s : State H) : Nat :=
  s.readTask.notes + (∑ i, (s.workers i).notes) + (s.calls.map fun c => c.pc.notes).sum

/-- The operations still to do, until the next notification. -/
def State.work (s : State H) : Nat :=
  s.readTask.work s.streams.entries.length + (∑ i, (s.workers i).work) +
    s.writeChannel.queue.length + (s.calls.map fun c => c.pc.work (s.notifiesOf c.stream)).sum +
    (s.closes.map CloseCall.work).sum + (s.pings.map PingCall.work).sum

/-- What is left to do. -/
def State.measure (s : State H) : Nat ×ₗ Nat := toLex (s.notes, s.work)

theorem measure_lt {s s' : State H} (hnotes : s'.notes ≤ s.notes) (hwork : s'.work < s.work) :
    s'.measure < s.measure := by
  refine Prod.Lex.toLex_lt_toLex.mpr ?_
  rcases Nat.lt_or_eq_of_le hnotes with hlt | heq
  · exact .inl hlt
  · exact .inr ⟨heq, hwork⟩

theorem measure_lt_of_notes {s s' : State H} (h : s'.notes < s.notes) : s'.measure < s.measure :=
  Prod.Lex.toLex_lt_toLex.mpr (.inl h)

theorem ReadTask.work_mono (t : ReadTask H) {m n : Nat} (h : m ≤ n) : t.work m ≤ t.work n := by
  cases t with
  | lockStreams | goAwayClose | storeGoneAway => exact Nat.add_le_add_right h _
  | _ => exact Nat.le_refl _

/-- A signal leaves a `ping` as much to do as it had. -/
theorem signal_work (rx : Oneshot) (p : PingCall) : (PingCall.signal rx p).work = p.work := by
  cases p with
  | _ => rfl

theorem signalPing_work (s : State H) (id : UInt32) (rx : Oneshot) :
    ∃ pingMap pings, s.signalPing id rx = { s with pingMap := pingMap, pings := pings } ∧
      pings.map PingCall.work = s.pings.map PingCall.work := by
  unfold State.signalPing
  split
  · exact ⟨s.pingMap, s.pings, rfl, rfl⟩
  · exact ⟨_, _, rfl, map_modify_eq (signal_work rx) _ _⟩

/-! ## The waiters of a stream -/

theorem notifiesOf_congr {s s' : State H}
    (h : s'.objs.map Stream.notifies = s.objs.map Stream.notifies) (o : Nat) :
    s'.notifiesOf o = s.notifiesOf o := by
  have hget : ∀ u : State H,
      u.notifiesOf o = ((u.objs.map Stream.notifies)[o]?).getD 0 := fun u => by
    rw [State.notifiesOf, List.getElem?_map]
    cases u.objs[o]? with
    | none => rfl
    | some st => rfl
  rw [hget, hget, h]

/-- A new stream has notified nobody. -/
theorem notifiesOf_concat (s s' : State H) {st : Stream H} (hnew : st.notifies = 0)
    (h : s'.objs = s.objs ++ [st]) (o : Nat) : s'.notifiesOf o = s.notifiesOf o := by
  rw [State.notifiesOf, State.notifiesOf, h]
  by_cases ho : o = s.objs.length
  · rw [ho, List.getElem?_concat_length, List.getElem?_eq_none (Nat.le_refl _)]
    exact hnew
  · rw [get_concat_other _ ho]

/-! ## The read task -/

/-- A step that leaves the calls and the waiters is one of the read task, the workers and
the write channel. -/
theorem measure_of_tasks {s s' : State H} (hcalls : s'.calls = s.calls)
    (hnotifies : ∀ o, s'.notifiesOf o = s.notifiesOf o) (hcloses : s'.closes = s.closes)
    (hpings : s'.pings.map PingCall.work = s.pings.map PingCall.work)
    (hnotes : s'.readTask.notes + (∑ i, (s'.workers i).notes) ≤
      s.readTask.notes + ∑ i, (s.workers i).notes)
    (hwork : s'.readTask.work s'.streams.entries.length + (∑ i, (s'.workers i).work) +
        s'.writeChannel.queue.length <
      s.readTask.work s.streams.entries.length + (∑ i, (s.workers i).work) +
        s.writeChannel.queue.length) : s'.measure < s.measure := by
  refine measure_lt ?_ ?_
  · rw [State.notes, State.notes, hcalls]
    omega
  · rw [State.work, State.work, hcalls, hcloses, hpings]
    simp only [hnotifies]
    omega

theorem frameWork_pos (f : Frame H) : 0 < frameWork f := Nat.succ_pos _

/-- A send of the read task ends in `read_frame`. -/
theorem answer_measure {s s' : State H} {f : Frame H} {es : List (Event H)}
    (hwork : s.readTask.work s.streams.entries.length = 2)
    (h : (s.sendIgnoring .readTask f).map (thenRead .reading) = some (s', es)) :
    s'.measure < s.measure := by
  obtain ⟨⟨s₁, es₁⟩, hsend, hr⟩ := Option.map_eq_some_iff.mp h
  cases hr
  rcases sendIgnoring_cases hsend with ⟨-, rfl, rfl⟩ | ⟨c, hsent, rfl, rfl⟩
  · refine measure_of_tasks rfl (fun _ => rfl) rfl rfl ?_ ?_
    · exact Nat.add_le_add_right (Nat.zero_le _) _
    · rw [hwork]
      simp only [ReadTask.work]
      omega
  · refine measure_of_tasks rfl (fun _ => rfl) rfl rfl ?_ ?_
    · exact Nat.add_le_add_right (Nat.zero_le _) _
    · rw [hwork]
      simp only [ReadTask.work, queue_of_send hsent, List.length_append,
        List.length_singleton]
      omega

theorem missing_work (f : Frame H) (n : Nat) :
    (missing f).work n ≤ 2 ∧ (missing f).notes = 0 := by
  cases f with
  | data _ => exact ⟨Nat.le_refl 2, rfl⟩
  | _ => exact ⟨Nat.zero_le 2, rfl⟩

theorem readTask_measure {s s' : State H} {pick : Nat} {es : List (Event H)}
    (h : s.readStep pick = some (s', es)) : s'.measure < s.measure := by
  cases task_step h with
  | routes holds move =>
      cases move with
      | plain _ before _ _ _ => cases holds.symm.trans before
      | answer _ _ _ pc _ _ => cases holds.symm.trans (ReadTask.holdsFrame_of_answer pc)
      | accept f pc _ =>
          refine measure_of_tasks rfl (notifiesOf_concat _ _ rfl rfl) rfl rfl ?_ ?_
          · simp [pc, ReadTask.notes]
          · simp only [pc, ReadTask.work]
            omega
      | stale f pc _ | checked f pc _ | refused f pc _ | passed f pc _ | taken f pc _ =>
          refine measure_of_tasks rfl (fun _ => rfl) rfl rfl ?_ ?_
          · simp [pc, ReadTask.notes]
          · simp only [pc, ReadTask.work]
            omega
      | publish f o pc =>
          refine measure_of_tasks rfl (fun _ => rfl) rfl rfl ?_ ?_
          · simp [pc, ReadTask.notes, frameNotes, workerOps]
          · simp only [pc, ReadTask.work]
            omega
      | found f o pc _ =>
          refine measure_of_tasks rfl (fun _ => rfl) rfl rfl ?_ ?_
          · simp [pc, ReadTask.notes]
          · simp only [pc, ReadTask.work]
            omega
      | missed f pc _ =>
          obtain ⟨hwork, hnotes⟩ := missing_work f s.streams.entries.length
          have hpos := frameWork_pos f
          refine measure_of_tasks rfl (fun _ => rfl) rfl rfl ?_ ?_
          · exact Nat.add_le_add_right (hnotes.trans_le (Nat.zero_le _)) _
          · have hbefore : s.readTask.work s.streams.entries.length = frameWork f + 2 := by
              rw [pc]
              rfl
            simp only [hbefore]
            omega
      | @deliver o f pc w worker =>
          have hnotes := sum_update Worker.notes s.workers (workerIdx f.target) w
          have hwork := sum_update Worker.work s.workers (workerIdx f.target) w
          refine measure_of_tasks rfl (fun _ => rfl) rfl rfl ?_ ?_
          · simp only [pc, ReadTask.notes]
            rw [worker] at hnotes ⊢
            simp only [Worker.notes, List.map_append, List.sum_append, List.map_singleton,
              List.sum_singleton] at hnotes ⊢
            omega
          · simp only [pc, ReadTask.work]
            rw [worker] at hwork ⊢
            simp only [Worker.work, List.map_append, List.sum_append, List.map_singleton,
              List.sum_singleton] at hwork ⊢
            omega
  | inUse _ pc send | responds _ pc send => exact answer_measure (by rw [pc]; rfl) send
  | resolves id' pc =>
      obtain ⟨pingMap, pings, heq, hpings⟩ := signalPing_work s id' .fired
      rw [heq]
      refine measure_of_tasks rfl (fun _ => rfl) rfl hpings ?_ ?_
      · simp [pc, ReadTask.notes]
      · simp [pc, ReadTask.work]
  | sweeps rest o pc get =>
      refine measure_of_tasks rfl (notifiesOf_congr ?_) rfl rfl ?_ ?_
      · exact map_modify_eq (f := Stream.closeRemote) (fun _ => rfl) _ _
      · simp [pc, ReadTask.notes]
      · obtain ⟨hlt, -⟩ := List.getElem?_eq_some_iff.mp get
        have hlen := List.length_eraseIdx_of_lt hlt
        simp only [pc, ReadTask.work]
        omega
  | locks pc =>
      refine measure_of_tasks rfl (fun _ => rfl) rfl rfl ?_ ?_
      · simp [pc, ReadTask.notes]
      · simp only [pc, ReadTask.work, List.length_map]
        omega
  | goesAway pc | closes pc | swept pc | ends pc =>
      refine measure_of_tasks rfl (fun _ => rfl) rfl rfl ?_ ?_
      · simp [pc, ReadTask.notes]
      · simp only [pc, ReadTask.work]
        omega

/-! ## The workers -/

/-- A step of a worker that takes one of its operations. -/
theorem worker_measure {s s' : State H} {i : Fin nWorkers} {w : Worker H}
    (hworkers : s'.workers = Function.update s.workers i w) (hcalls : s'.calls = s.calls)
    (hnotifies : ∀ o, s'.notifiesOf o = s.notifiesOf o) (hcloses : s'.closes = s.closes)
    (hpings : s'.pings = s.pings) (htask : s'.readTask = s.readTask)
    (hstreams : s'.streams.entries.length ≤ s.streams.entries.length)
    (hchannel : s'.writeChannel = s.writeChannel) (hnotes : w.notes ≤ (s.workers i).notes)
    (hwork : w.work < (s.workers i).work) : s'.measure < s.measure := by
  have hsum := sum_update Worker.notes s.workers i w
  have hsum' := sum_update Worker.work s.workers i w
  have hread := ReadTask.work_mono s.readTask hstreams
  refine measure_of_tasks hcalls hnotifies hcloses (by rw [hpings]) ?_ ?_
  · rw [hworkers, htask]
    omega
  · rw [hworkers, htask, hchannel]
    omega

theorem workerRecv_measure {s s' : State H} {i : Fin nWorkers} {es : List (Event H)}
    (h : s.workerRecv i = some (s', es)) : s'.measure < s.measure := by
  unfold State.workerRecv at h
  split at h
  · rename_i m rest htodo hqueue
    cases h
    refine worker_measure rfl rfl (fun _ => rfl) rfl rfl rfl (Nat.le_refl _) rfl ?_ ?_
    · rw [Worker.notes, Worker.notes, htodo, hqueue, List.map_cons, List.sum_cons]
      simp only [frameNotes, List.count_nil]
      omega
    · rw [Worker.work, Worker.work, htodo, hqueue, List.map_cons, List.sum_cons]
      simp only [frameWork, List.length_nil]
      omega
  · cases h

theorem workerRun_measure {s s' : State H} {i : Fin nWorkers} {es : List (Event H)}
    (h : s.workerRun i = some (s', es)) : s'.measure < s.measure := by
  unfold State.workerRun at h
  simp only [] at h
  split at h
  · cases h
  · rename_i op rest htodo
    obtain ⟨⟨s₁, es₁⟩, hop, hr⟩ := Option.map_eq_some_iff.mp h
    cases hr
    have hwork : Worker.work { s.workers i with todo := rest } < (s.workers i).work := by
      rw [Worker.work, Worker.work, htodo, List.length_cons]
      simp only
      omega
    have hnotes : Worker.notes { s.workers i with todo := rest } ≤ (s.workers i).notes := by
      rw [Worker.notes, Worker.notes, htodo]
      exact Nat.add_le_add_right (List.count_le_count_cons) _
    cases op with
    | spawnHandler =>
        cases hop
        exact worker_measure rfl rfl (fun _ => rfl) rfl rfl rfl (Nat.le_refl _) rfl hnotes hwork
    | pushData data =>
        simp only [State.runOp] at hop
        split at hop
        · cases hop
        · cases hop
          refine worker_measure rfl rfl (notifiesOf_congr (map_modify_eq (fun st => ?_) _ _)) rfl
            rfl rfl (Nat.le_refl _) rfl hnotes hwork
          unfold Stream.pushData
          split
          · rfl
          · rfl
    | closeRemote =>
        cases hop
        refine worker_measure rfl rfl (notifiesOf_congr ?_) rfl rfl rfl (Nat.le_refl _) rfl hnotes
          hwork
        exact map_modify_eq (f := Stream.closeRemote) (fun _ => rfl) _ _
    | removeStream =>
        simp only [State.runOp] at hop
        split at hop
        · cases hop
        · split at hop
          · cases hop
          · cases hop
            refine worker_measure rfl rfl (fun _ => rfl) rfl rfl rfl ?_ rfl hnotes hwork
            exact (List.kerase_sublist _ _).length_le
    | storeReplied =>
        cases hop
        refine worker_measure rfl rfl (notifiesOf_congr ?_) rfl rfl rfl (Nat.le_refl _) rfl hnotes
          hwork
        exact map_modify_eq (f := fun st : Stream H => { st with replied := true })
          (fun _ => rfl) _ _
    | notifyWaiters =>
        cases hop
        have hsum := sum_update Worker.notes s.workers i { s.workers i with todo := rest }
        have hless : Worker.notes { s.workers i with todo := rest } < (s.workers i).notes := by
          rw [Worker.notes, Worker.notes, htodo, List.count_cons_self]
          simp only
          omega
        refine measure_lt_of_notes ?_
        simp only [State.notes, State.modifyStream] at hsum hless ⊢
        omega

/-! ## Calls -/

/-- An operation of a call either works off what it has to do, or notifies. -/
def Pays (pc : CallPc H) (st : Stream H) (c : Channel H) (out : CallOutcome H) : Prop :=
  out.stream.notifies = st.notifies ∧ out.pc.notes ≤ pc.notes ∧
      out.pc.work st.notifies + out.channel.queue.length < pc.work st.notifies + c.queue.length ∨
    out.channel = c ∧ out.pc.notes < pc.notes

theorem sendThen_pays {pc : CallPc H} {st : Stream H} {c : Channel H} {f : Frame H}
    {next : CallPc H} {out : CallOutcome H} (hnotes : next.notes ≤ pc.notes)
    (hwork : next.work st.notifies + 1 < pc.work st.notifies)
    (h : sendThen c st f next = some out) : Pays pc st c out := by
  unfold sendThen at h
  split at h
  · cases h
  · cases h
    exact .inl ⟨rfl, Nat.zero_le _, Nat.add_lt_add_right (Nat.zero_lt_of_lt hwork) _⟩
  · rename_i hsent
    cases h
    refine .inl ⟨rfl, hnotes, ?_⟩
    simp only [queue_of_send hsent, List.length_append, List.length_singleton]
    omega

theorem tryThen_pays {pc : CallPc H} {st : Stream H} {c : Channel H} {f : Frame H}
    {next : CallPc H} (blocked : Bool) (hnotes : next.notes ≤ pc.notes)
    (hwork : next.work st.notifies + 1 < pc.work st.notifies) :
    Pays pc st c (tryThen blocked c st f next) := by
  have hreturns : ∀ r, Pays pc st c ⟨.returned r, st, c, []⟩ := fun _ =>
    .inl ⟨rfl, Nat.zero_le _, Nat.add_lt_add_right (Nat.zero_lt_of_lt hwork) _⟩
  unfold tryThen
  split
  · exact hreturns _
  · exact hreturns _
  · rename_i hsent
    split
    · exact hreturns _
    · refine .inl ⟨rfl, hnotes, ?_⟩
      simp only [queue_of_send hsent, List.length_append, List.length_singleton]
      omega

theorem callStep_pays {alt : Bool} {pc : CallPc H} {st : Stream H} {c : Channel H}
    {out : CallOutcome H} (h : callStep alt pc st c = some out) : Pays pc st c out := by
  cases call_step h with
  | replySend _ _ send | writeSend _ _ send | resetSend _ send =>
      refine sendThen_pays ?_ ?_ send
      · exact Nat.le_refl _
      · simp [CallPc.work]
  | pollSend _ | shutdownSend =>
      refine tryThen_pays _ ?_ ?_
      · exact Nat.le_refl _
      · simp [CallPc.work]
  | notifies | notifiesFin => exact .inr ⟨rfl, Nat.zero_lt_one⟩
  | reloadsUnreplied data fin seen _ =>
      refine .inl ⟨rfl, Nat.le_refl _, ?_⟩
      simp only [CallPc.work]
      split
      · omega
      · omega
  | reloadsReplied data fin seen _ =>
      refine .inl ⟨rfl, Nat.le_refl _, ?_⟩
      simp only [CallPc.work]
      split
      · omega
      · omega
  | wakes data fin seen notifies =>
      refine .inl ⟨rfl, Nat.le_refl _, ?_⟩
      simp only [CallPc.work, if_neg notifies]
      omega
  | _ => exact .inl ⟨rfl, Nat.le_refl _, by simp [CallPc.work, receive, readReturn]⟩

theorem call_measure {s s' : State H} {k : Nat} {alt : Bool} {es : List (Event H)}
    (h : s.stepCall k alt = some (s', es)) : s'.measure < s.measure := by
  unfold State.stepCall at h
  split at h
  · cases h
  · rename_i c get
    split at h
    · cases h
    · rename_i st obj
      split at h
      · cases h
      · rename_i out outcome
        have hnotes := sum_map_set (fun c : Call H => c.pc.notes) { c with pc := out.pc } get
        simp only at hnotes
        rcases callStep_pays outcome with ⟨hsame, hle, hwork⟩ | ⟨hchannel, hless⟩
        · have hkept : ∀ o, s'.notifiesOf o = s.notifiesOf o := by
            cases h
            exact notifiesOf_congr (map_set_eq obj hsame)
          cases h
          have hsum := sum_map_set (fun c : Call H => c.pc.work (s.notifiesOf c.stream))
            { c with pc := out.pc } get
          simp only [notifiesOf_of_get obj] at hsum
          refine measure_lt ?_ ?_
          · simp only [State.notes]
            omega
          · simp only [State.work, hkept]
            omega
        · cases h
          refine measure_lt_of_notes ?_
          simp only [State.notes]
          omega

/-! ## `close`, `ping` and the write task -/

theorem measure_of_rest {s s' : State H} (htask : s'.readTask = s.readTask)
    (hworkers : s'.workers = s.workers) (hstreams : s'.streams = s.streams)
    (hobjs : s'.objs = s.objs) (hcalls : s'.calls = s.calls)
    (hwork : s'.writeChannel.queue.length + (s'.closes.map CloseCall.work).sum +
        (s'.pings.map PingCall.work).sum <
      s.writeChannel.queue.length + (s.closes.map CloseCall.work).sum +
        (s.pings.map PingCall.work).sum) : s'.measure < s.measure := by
  have hnotifies : ∀ o, s'.notifiesOf o = s.notifiesOf o := notifiesOf_congr (by rw [hobjs])
  refine measure_lt ?_ ?_
  · rw [State.notes, State.notes, htask, hworkers, hcalls]
  · rw [State.work, State.work, htask, hworkers, hstreams, hcalls]
    simp only [hnotifies]
    omega

theorem close_measure {s s' : State H} {k : Nat} {es : List (Event H)}
    (h : s.stepClose k = some (s', es)) : s'.measure < s.measure := by
  cases closeStep_eq h with
  | late get _ | first get _ | loads get | unsent _ get _ | broadcasts get | drained get _ _ =>
      refine measure_of_rest rfl rfl rfl rfl rfl ?_
      have hsum := fun next => sum_map_set CloseCall.work next get
      simp only [CloseCall.work] at hsum
      grind [CloseCall.work]
  | sends lastGood c get send =>
      have hsum := sum_map_set CloseCall.work .broadcast get
      refine measure_of_rest rfl rfl rfl rfl rfl ?_
      simp only [CloseCall.work] at hsum
      simp only [queue_of_send send, List.length_append, List.length_singleton]
      omega

theorem ping_measure {s s' : State H} {k : Nat} {es : List (Event H)}
    (h : s.stepPing k = some (s', es)) : s'.measure < s.measure := by
  cases pingStep_eq h with
  | inserts id get =>
      obtain ⟨pingMap, pings, heq, hpings⟩ := signalPing_work s id .dropped
      have hget : pings[k]?.map PingCall.work = some 4 := by
        rw [← List.getElem?_map, hpings, List.getElem?_map, get]
        rfl
      obtain ⟨p, hp, hwork⟩ := Option.map_eq_some_iff.mp hget
      have hsum := sum_map_set PingCall.work (.send id .waiting) hp
      rw [hpings, hwork] at hsum
      simp only [heq]
      refine measure_of_rest rfl rfl rfl rfl rfl ?_
      simp only [PingCall.work] at hsum ⊢
      omega
  | sends id rx c get send =>
      have hsum := sum_map_set PingCall.work (.wait id rx) get
      refine measure_of_rest rfl rfl rfl rfl rfl ?_
      simp only [PingCall.work] at hsum
      simp only [queue_of_send send, List.length_append, List.length_singleton]
      omega
  | fetches get | unsent _ _ get _ | echoed _ get | dropped _ get =>
      refine measure_of_rest rfl rfl rfl rfl rfl ?_
      have hsum := fun next => sum_map_set PingCall.work next get
      grind [PingCall.work]

theorem write_measure {s s' : State H} {es : List (Event H)} (h : s.write = some (s', es)) :
    s'.measure < s.measure := by
  obtain ⟨f, rest, hqueue, -, rfl, -⟩ := write_step h
  refine measure_of_rest rfl rfl rfl rfl rfl ?_
  simp only [hqueue, List.length_cons]
  omega

/-! ## All own steps -/

/-- Every own step leaves less to do. -/
theorem own_decreases : (connection H).Decreases Action.isOwn State.measure := by
  intro s a s' es hown hs
  cases a with
  | readTask pick => exact readTask_measure hs
  | workerRecv i => exact workerRecv_measure hs
  | workerRun i => exact workerRun_measure hs
  | write => exact write_measure hs
  | call k alt => exact call_measure hs
  | closeStep k => exact close_measure hs
  | pingStep k => exact ping_measure hs
  | _ => cases hown

/-- Whichever own steps are taken they come to an end, and what all steps keep is kept. -/
theorem comes_settled {J : List (Event H) → State H → Prop}
    (hkeep : ∀ evs s a s' es, J evs s → s.step a = some (s', es) → J (evs ++ es) s')
    {evs : List (Event H)} {s : State H} (h : J evs s) :
    (connection H).Comes Action.isOwn
      (fun evs s => J evs s ∧ (connection H).Settled Action.isOwn s) evs s :=
  own_decreases.comes (fun evs s a s' es hJ _ hs => hkeep evs s a s' es hJ hs) h

end SpdyStream.Session
