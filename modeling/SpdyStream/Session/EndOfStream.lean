/-
  Session/EndOfStream.lean --- when `read_data` returns `Ok(None)`.

  The reader looks at the data channel, then at the closed flag.  A worker that
  pushes and closes in between makes it return `Ok(None)` over a payload; only the
  `select!` looks at the channel again.  The teardown closes without regard to what
  the workers have still to push.
-/
import SpdyStream.Session.Teardown

set_option autoImplicit false

namespace SpdyStream.Session

open SpdyStream.Foundation
open SpdyStream.Framing

variable {H : Type}

/-! ## The way to `Ok(None)` -/

/-- The call stands between its `try_recv` and its look at the closed flag. -/
def CallPc.isBorrowing : CallPc H → Bool
  | .readBorrow => true
  | _ => false

/-- The call has seen the stream closed, and looks at the channel again. -/
def CallPc.isDraining : CallPc H → Bool
  | .readDrain => true
  | _ => false

/-- What one operation of a call knows of the end of its stream: it comes before the
closed flag over an empty channel, looks again because the stream is closed, and
returns `Ok(None)` where it finds the flag set or the channel still empty. -/
structure EndStep (pc : CallPc H) (st : Stream H) (out : CallOutcome H) : Prop where
  borrowing : out.pc.isBorrowing = true → st.dataQueue = []
  draining : out.pc.isDraining = true → st.remoteClosed = true
  ending : out.pc.isEnd = true →
    pc.isBorrowing = true ∧ st.remoteClosed = true ∨ pc.isDraining = true ∧ st.dataQueue = []

/-- An operation that leads to neither look, and not to `Ok(None)`. -/
theorem endStep_idle {pc : CallPc H} {st : Stream H} {out : CallOutcome H}
    (hborrow : out.pc.isBorrowing = false) (hdrain : out.pc.isDraining = false)
    (hend : out.pc.isEnd = false) : EndStep pc st out := by
  refine ⟨fun hout => ?_, fun hout => ?_, fun hout => ?_⟩
  · rw [hborrow] at hout
    cases hout
  · rw [hdrain] at hout
    cases hout
  · rw [hend] at hout
    cases hout

theorem CallPc.looks_not {pc : CallPc H} (h : pc.isReading = false) :
    pc.isBorrowing = false ∧ pc.isDraining = false := by
  cases pc with
  | readLock | readTry | readBorrow | readSelect | readDrain => cases h
  | _ => exact ⟨rfl, rfl⟩

theorem callStep_end {alt : Bool} {pc : CallPc H} {st : Stream H} {c : Channel H}
    {out : CallOutcome H} (h : callStep alt pc st c = some out) : EndStep pc st out := by
  by_cases hpc : pc.isReading = false
  · have hnot := callStep_readsNot h hpc
    obtain ⟨hborrow, hdrain⟩ := CallPc.looks_not hnot.reading
    exact endStep_idle hborrow hdrain hnot.notEnd
  · cases call_step h with
    | locks _ | tryTakes _ _ _ | borrowGoes _ | selectTakes _ _ _ _ | drainTakes _ _ _ =>
        exact endStep_idle rfl rfl rfl
    | tryEmpty queue =>
        refine ⟨fun _ => queue, fun hdrain => ?_, fun hend => ?_⟩
        · cases hdrain
        · cases hend
    | borrowEnds closed =>
        refine ⟨fun hborrow => ?_, fun hdrain => ?_, fun _ => .inl ⟨rfl, closed⟩⟩
        · cases hborrow
        · cases hdrain
    | selectCloses _ closed =>
        refine ⟨fun hborrow => ?_, fun _ => closed, fun hend => ?_⟩
        · cases hborrow
        · cases hend
    | drainEnds queue =>
        refine ⟨fun hborrow => ?_, fun hdrain => ?_, fun _ => .inr ⟨rfl, queue⟩⟩
        · cases hborrow
        · cases hdrain
    | _ => exact absurd rfl hpc

theorem callCancel_looks {pc pc' : CallPc H} {st st' : Stream H}
    (h : callCancel pc st = some (pc', st')) :
    pc'.isBorrowing = false ∧ pc'.isDraining = false := by
  cases pc with
  | replySend _ _ | writeSend _ _ | writeWait _ _ _ | resetSend _ | readLock | readSelect =>
      cases h
      exact ⟨rfl, rfl⟩
  | _ => cases h

theorem entry_looks (r : Request H) :
    r.entry.isBorrowing = false ∧ r.entry.isDraining = false := by
  cases r with
  | _ => exact ⟨rfl, rfl⟩

/-! ## Closes and the reader -/

/-- The next operation of a worker closes stream `o`, or the teardown does. -/
def State.closesBy (o : Nat) (s : State H) : Action H → Bool
  | .workerRun i =>
      match (s.workers i).todo with
      | .closeRemote :: _ => (s.workers i).stream = o
      | _ => false
  | a => s.sweeps o a

/-- The action does not close stream `o` while a reader has found its channel empty,
stands before the closed flag, and the channel is not empty any more. -/
def State.closeSettled (o : Nat) (s : State H) (a : Action H) : Bool :=
  !s.closesBy o a || !s.anyCall o CallPc.isBorrowing || (s.payloadsOf o).isEmpty

/-- The condition under which `Ok(None)` is the last that is read of stream `o`. -/
def CloseSettled (o : Nat) (_ : List (Event H)) (s : State H) (a : Action H) : Prop :=
  s.closeSettled o a = true

instance (o : Nat) (evs : List (Event H)) (s : State H) (a : Action H) :
    Decidable (CloseSettled o evs s a) := inferInstanceAs (Decidable (_ = true))

/-- The step closes stream `o`: a worker does, or the teardown. -/
def closesIn (o : Nat) (t : TakenStep H) : Prop :=
  .worked o .closeRemote ∈ t.events ∨ t.before.sweeps o t.action = true

/-- In the step a call on stream `o` returns `Ok(None)`. -/
def endsIn (o : Nat) (t : TakenStep H) : Prop :=
  ∃ j alt pc, t.action = .call j alt ∧ t.after.pcOf o j = some pc ∧ pc.isEnd = true

variable {guard : List (Event H) → State H → Action H → Prop} {evs : List (Event H)} {s : State H}

/-- A step that closes a stream is one that was about to. -/
theorem closesBy_of_step (hrun : (connection H).Run guard evs s) {s' : State H} {a : Action H}
    {es : List (Event H)} (hs : s.step a = some (s', es)) {o : Nat}
    (h : .worked o .closeRemote ∈ es ∨ s.sweeps o a = true) : s.closesBy o a = true := by
  rcases h with hworked | hsweeps
  · cases stream_step hrun hs o with
    | work i op rest st action stream todo obj now calls events =>
        have hop : op = .closeRemote := by
          rw [events] at hworked
          rcases List.mem_cons.mp hworked with heq | hmem
          · cases heq
            rfl
          · cases op with
            | pushData _ | removeStream => cases List.mem_singleton.mp hmem
            | _ => cases hmem
        subst hop
        rw [action, State.closesBy, todo]
        exact decide_eq_true stream
    | call j alt pc st out action get obj outcome now calls events =>
        rw [events] at hworked
        rcases mem_callEvents outcome hworked with ⟨d, heq⟩ | ⟨f, heq, -⟩
        · cases heq
        · cases heq
    | other same calls unswept silent sent =>
        have hfalse := silent _ hworked
        rw [worked_concerns] at hfalse
        cases hfalse
    | _ => simp_all
  · cases a with
    | readTask pick => exact hsweeps
    | _ => cases hsweeps

/-- What a step that closes a stream leaves as it is. -/
theorem closesBy_calls (hrun : (connection H).Run guard evs s) {s' : State H} {a : Action H}
    {es : List (Event H)} (hs : s.step a = some (s', es)) {o : Nat} (h : s.closesBy o a = true) :
    ∀ j, s'.pcOf o j = s.pcOf o j := by
  cases stream_step hrun hs o with
  | call j alt pc st out action get obj outcome now calls events =>
      rw [action] at h
      cases h
  | cancel j pc pc' st st' action get obj outcome now calls events =>
      rw [action] at h
      cases h
  | invoke j r action fresh now calls events =>
      rw [action] at h
      cases h
  | work i op rest st action stream todo obj now calls events => exact calls
  | sweep st sweeps obj now calls events => exact calls
  | make f pc before now calls events => exact calls
  | other same calls unswept silent sent => exact calls

/-- What is known of a call that has just come where it looks again. -/
theorem looks_step (hrun : (connection H).Run guard evs s) {s' : State H} {a : Action H}
    {es : List (Event H)} (hs : s.step a = some (s', es)) {o j : Nat} {pc : CallPc H}
    (hpc : s'.pcOf o j = some pc) : s.pcOf o j = some pc ∨
      (pc.isBorrowing = true → s.payloadsOf o = []) ∧
        (pc.isDraining = true → s.isRemoteClosed o = true) := by
  cases stream_step hrun hs o with
  | call i alt pc' st out action get obj outcome now calls events =>
      rw [calls] at hpc
      split at hpc
      · cases hpc
        have hend := callStep_end outcome
        right
        rw [State.payloadsOf, obj, isRemoteClosed_of_get obj]
        exact ⟨hend.borrowing, hend.draining⟩
      · exact .inl hpc
  | cancel i pc' pc'' st st' action get obj outcome now calls events =>
      rw [calls] at hpc
      split at hpc
      · cases hpc
        obtain ⟨hborrow, hdrain⟩ := callCancel_looks outcome
        right
        simp [hborrow, hdrain]
      · exact .inl hpc
  | invoke i r action fresh now calls events =>
      rw [calls] at hpc
      split at hpc
      · cases hpc
        obtain ⟨hborrow, hdrain⟩ := entry_looks r
        right
        simp [hborrow, hdrain]
      · exact .inl hpc
  | work i op rest st action stream todo obj now calls events => exact .inl (calls j ▸ hpc)
  | sweep st sweeps obj now calls events => exact .inl (calls j ▸ hpc)
  | make f pc' before now calls events => exact .inl (calls j ▸ hpc)
  | other same calls unswept silent sent => exact .inl (calls j ▸ hpc)

/-- What was kept for stream `o`, and what was delivered from it. -/
def keptIn (o : Nat) (hist : List (TakenStep H)) : List Bytes :=
  (hist.flatMap Machine.Taken.events).flatMap (Event.keptFor o)

def deliveredIn (o : Nat) (hist : List (TakenStep H)) : List Bytes :=
  (hist.flatMap Machine.Taken.events).flatMap (Event.deliveredFrom o)

theorem deliveredIn_append (o : Nat) (hist hist' : List (TakenStep H)) :
    deliveredIn o (hist ++ hist') = deliveredIn o hist ++ deliveredIn o hist' := by
  rw [deliveredIn, List.flatMap_append, List.flatMap_append]
  rfl

theorem keptIn_append (o : Nat) (hist hist' : List (TakenStep H)) :
    keptIn o (hist ++ hist') = keptIn o hist ++ keptIn o hist' := by
  rw [keptIn, List.flatMap_append, List.flatMap_append]
  rfl

/-- Over an empty channel all that was kept has been delivered. -/
theorem kept_eq_delivered_of_empty {hist : List (TakenStep H)}
    (h : (connection H).History guard hist s) {o : Nat} (hempty : s.payloadsOf o = []) :
    keptIn o hist = deliveredIn o hist := by
  have hkept := kept_eq_delivered h.run o
  rw [hempty, List.append_nil] at hkept
  exact hkept

/-- Whenever `read_data` returns `Ok(None)` for stream `o`, all that was kept for the
stream before it was closed has been returned. -/
def EndIsLast (o : Nat) (hist : List (TakenStep H)) : Prop :=
  ∀ pre c mid r post, hist = (pre ++ c :: mid) ++ r :: post → closesIn o c → endsIn o r →
    keptIn o pre <+: deliveredIn o (pre ++ c :: mid)

/-- While a reader stands before the closed flag, nothing is left in the channel of what
was kept before a close. -/
theorem kept_before_close {o : Nat} {hist : List (TakenStep H)}
    (h : (connection H).History (CloseSettled o) hist s) {j : Nat} {pc : CallPc H}
    (hpc : s.pcOf o j = some pc) (hborrow : pc.isBorrowing = true) {pre mid : List (TakenStep H)}
    {c : TakenStep H} (hsplit : hist = pre ++ c :: mid) (hcloses : closesIn o c) :
    keptIn o pre <+: deliveredIn o hist := by
  refine h.invariant (I := fun hist s => ∀ j pc, s.pcOf o j = some pc → pc.isBorrowing = true →
    ∀ pre c mid, hist = pre ++ c :: mid → closesIn o c → keptIn o pre <+: deliveredIn o hist)
    ?_ ?_ j pc hpc hborrow pre c mid hsplit hcloses
  · intro j pc hpc
    cases hpc
  · intro hist t hhist hguard hs ih j pc hpc hborrow pre c mid hsplit hcloses
    have hgrows : deliveredIn o hist <+: deliveredIn o (hist ++ [t]) := by
      rw [deliveredIn_append]
      exact List.prefix_append _ _
    refine List.IsPrefix.trans ?_ hgrows
    have hempty : t.before.payloadsOf o = [] → keptIn o pre <+: keptIn o hist →
        keptIn o pre <+: deliveredIn o hist := fun hempty hpre => by
      rwa [kept_eq_delivered_of_empty hhist hempty] at hpre
    rcases Machine.concat_eq_split hsplit with ⟨rfl, rfl⟩ | ⟨rest, rfl⟩
    · -- the step itself closes the stream: no reader is there, or the channel is empty
      have hby := closesBy_of_step hhist.run hs hcloses
      rw [closesBy_calls hhist.run hs hby] at hpc
      have hany : c.before.anyCall o CallPc.isBorrowing = true :=
        anyCall_iff.mpr ⟨j, pc, hpc, hborrow⟩
      refine hempty ?_ (List.prefix_refl _)
      simpa [CloseSettled, State.closeSettled, hby, hany] using hguard
    · rcases looks_step hhist.run hs hpc with hbefore | ⟨hnone, -⟩
      · exact ih j pc hbefore hborrow pre c rest rfl hcloses
      · refine hempty (hnone hborrow) ?_
        rw [keptIn_append]
        exact List.prefix_append _ _

/-- A call that has returned does not go on. -/
theorem end_stuck {o j : Nat} {pc : CallPc H} (hpc : s.pcOf o j = some pc)
    (hend : pc.isEnd = true) (alt : Bool) : s.step (.call j alt) = none := by
  have hnone : ∀ st c, callStep alt pc st c = none := fun st c => by
    cases pc with
    | returned r => rfl
    | _ => cases hend
  simp only [State.step, State.stepCall, pcOf_eq_some.mp hpc, hnone]
  split
  · rfl
  · rfl

/-- **The end is last.**  If no close of a stream comes between a reader's look at the
empty channel and its look at the closed flag when a payload has been pushed in
between, then `Ok(None)` is returned after all that was kept before the close. -/
theorem end_is_last {o : Nat} {hist : List (TakenStep H)}
    (h : (connection H).History (CloseSettled o) hist s) : EndIsLast o hist := by
  rintro pre c mid r post hsplit hcloses ⟨j, alt, pc, haction, hpc, hend⟩
  obtain ⟨hhist, -, hs⟩ := h.split hsplit
  have hempty : r.before.payloadsOf o = [] → keptIn o pre <+: deliveredIn o (pre ++ c :: mid) :=
    fun hempty => by
      rw [← kept_eq_delivered_of_empty hhist hempty, keptIn_append]
      exact List.prefix_append _ _
  cases stream_step hhist.run hs o with
  | call i alt' pc' st out action get obj outcome now calls events =>
      cases haction.symm.trans action
      rw [calls, if_pos rfl] at hpc
      cases hpc
      rcases (callStep_end outcome).ending hend with ⟨hborrow, -⟩ | ⟨-, hqueue⟩
      · exact kept_before_close hhist get hborrow rfl hcloses
      · refine hempty ?_
        rw [State.payloadsOf, obj]
        exact hqueue
  | other same calls unswept silent sent =>
      have hstuck := end_stuck (calls j ▸ hpc) hend alt
      rw [← haction] at hstuck
      cases hs.symm.trans hstuck
  | make f pc' before now calls events =>
      have hstuck := end_stuck (calls j ▸ hpc) hend alt
      rw [← haction] at hstuck
      cases hs.symm.trans hstuck
  | sweep st sweeps obj now calls events =>
      rw [haction] at sweeps
      cases sweeps
  | cancel i pc' pc'' st st' action get obj outcome now calls events =>
      cases haction.symm.trans action
  | invoke i r action fresh now calls events => cases haction.symm.trans action
  | work i op rest st action stream todo obj now calls events => cases haction.symm.trans action

/-- Decide that a step returns `Ok(None)` from the first stream. -/
def endsInFirst (t : TakenStep Unit) : Bool :=
  match t.action with
  | .call j _ => ((t.after.pcOf 0 j).map CallPc.isEnd).getD false
  | _ => false

theorem endsIn_of_endsInFirst {t : TakenStep Unit} (h : endsInFirst t = true) : endsIn 0 t := by
  unfold endsInFirst at h
  split at h
  · rename_i j alt haction
    cases hpc : t.after.pcOf 0 j with
    | none =>
        rw [hpc] at h
        cases h
    | some pc =>
        rw [hpc] at h
        exact ⟨j, alt, pc, haction, hpc, h⟩
  · cases h

/-- After the first stream was given the payload `[1]` a worker closes it, and
afterwards a call on it returns `Ok(None)`. -/
def closesThenEnds (hist : List (TakenStep Unit)) : Bool :=
  (List.range hist.length).any fun m => (List.range m).any fun n =>
    ((hist[n]?).map fun t => decide (Event.worked 0 .closeRemote ∈ t.events)).getD false &&
      ((hist[m]?).map endsInFirst).getD false && decide (keptIn 0 (hist.take n) = [[1]])

theorem split_of_closesThenEnds {hist : List (TakenStep Unit)} (h : closesThenEnds hist = true) :
    ∃ pre c mid r post, hist = (pre ++ c :: mid) ++ r :: post ∧ closesIn 0 c ∧ endsIn 0 r ∧
      keptIn 0 pre = [[1]] := by
  obtain ⟨m, -, hm⟩ := List.any_eq_true.mp h
  obtain ⟨n, hn, hboth⟩ := List.any_eq_true.mp hm
  rw [Bool.and_eq_true, Bool.and_eq_true, decide_eq_true_eq] at hboth
  obtain ⟨⟨hcloses, hends⟩, hkept⟩ := hboth
  cases hc : hist[n]? with
  | none =>
      rw [hc] at hcloses
      cases hcloses
  | some c =>
      cases hr : hist[m]? with
      | none =>
          rw [hr] at hends
          cases hends
      | some r =>
          rw [hc] at hcloses
          rw [hr] at hends
          exact ⟨_, c, _, r, _, Machine.split_at_two (List.mem_range.mp hn) hc hr,
            .inl (of_decide_eq_true hcloses), endsIn_of_endsInFirst hends, hkept⟩

/-- A DATA frame with FIN is applied, and two calls read the payload and the end. -/
theorem end_is_last_finData : ∃ hist s, (connection Unit).History (CloseSettled 0) hist s ∧
    closesThenEnds hist = true ∧ EndIsLast 0 hist := by
  obtain ⟨hist, s, h, hcheck⟩ := Machine.exists_history_of_trace (connection Unit) (CloseSettled 0)
    (registers (plainSyn 1 0) ++ applies (.synStream (plainSyn 1 0)) ++
      routes (plainLast 1) ++ applies (plainLast 1) ++ reads 0 ++
      Action.invoke 0 .readData :: calls 1 3)
    (fun hist _ => closesThenEnds hist)
    (by decide +kernel)
  exact ⟨hist, s, h, hcheck, end_is_last h⟩

/-- The worker pushes the payload of a DATA frame with FIN and closes the stream
between the two looks of a reader. -/
theorem end_before_payload : ¬ ∀ (hist : List (TakenStep Unit)) s o,
    (connection Unit).History Machine.free hist s → EndIsLast o hist := by
  intro hall
  obtain ⟨hist, s, h, hcheck⟩ := Machine.exists_history_of_trace (connection Unit) Machine.free
    (registers (plainSyn 1 0) ++ applies (.synStream (plainSyn 1 0)) ++
      routes (plainLast 1) ++ Action.invoke 0 .readData :: calls 0 2 ++
      applies (plainLast 1) ++ calls 0 1)
    (fun hist _ => closesThenEnds hist && decide (deliveredIn 0 hist = []))
    (by decide +kernel)
  rw [Bool.and_eq_true, decide_eq_true_eq] at hcheck
  obtain ⟨pre, c, mid, r, post, hsplit, hcloses, hends, hkept⟩ := split_of_closesThenEnds hcheck.1
  have hlast := hall hist s 0 h pre c mid r post hsplit hcloses hends
  have hnone := hcheck.2
  rw [hsplit, deliveredIn_append, List.append_eq_nil_iff] at hnone
  rw [hkept, hnone.1] at hlast
  exact absurd hlast (by decide)

end SpdyStream.Session
