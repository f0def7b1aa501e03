/-
  Session/Readers.lean --- `read_data` and the lock of `data_rx`.

  A call of `read_data` holds the lock from its first look at the data channel to
  its return, also while it waits in the `select!`.  So at most one call is in
  there, and a stream whose lock is taken has one that is.
-/
import SpdyStream.Session.OneStream

set_option autoImplicit false

namespace SpdyStream.Session

open SpdyStream.Foundation
open SpdyStream.Framing

variable {H : Type}

/-! ## The lock of `data_rx` -/

/-- The call holds the lock of `data_rx`. -/
def CallPc.holdsLock : CallPc H → Bool
  | .readTry | .readBorrow | .readSelect | .readDrain => true
  | _ => false

/-- The call is a `read_data` that has not returned. -/
def CallPc.isReading : CallPc H → Bool
  | .readLock => true
  | pc => pc.holdsLock

/-- The call has returned `Ok(None)`. -/
def CallPc.isEnd : CallPc H → Bool
  | .returned (.data none) => true
  | _ => false

theorem CallPc.holdsLock_of_notReading {pc : CallPc H} (h : pc.isReading = false) :
    pc.holdsLock = false := by
  cases pc with
  | readLock | readTry | readBorrow | readSelect | readDrain => cases h
  | _ => rfl

/-- A call that does not read goes on without reading, and leaves the lock. -/
structure ReadsNot (st : Stream H) (out : CallOutcome H) : Prop where
  reading : out.pc.isReading = false
  notEnd : out.pc.isEnd = false
  locked : out.stream.dataLocked = st.dataLocked

theorem sendThen_readsNot {c : Channel H} {st : Stream H} {f : Frame H} {next : CallPc H}
    {out : CallOutcome H} (h : sendThen c st f next = some out) (hnext : next.isReading = false)
    (hnotEnd : next.isEnd = false) : ReadsNot st out := by
  rcases sendThen_cases h with ⟨-, rfl⟩ | ⟨-, -, hstream, hpc⟩
  · exact ⟨rfl, rfl, rfl⟩
  · exact ⟨by rw [hpc, hnext], by rw [hpc, hnotEnd], by rw [hstream]⟩

theorem tryThen_readsNot (blocked : Bool) (c : Channel H) (st : Stream H) (f : Frame H)
    {next : CallPc H} (hnext : next.isReading = false) (hnotEnd : next.isEnd = false) :
    ReadsNot st (tryThen blocked c st f next) := by
  unfold tryThen
  split
  · exact ⟨rfl, rfl, rfl⟩
  · exact ⟨rfl, rfl, rfl⟩
  · split
    · exact ⟨rfl, rfl, rfl⟩
    · exact ⟨hnext, hnotEnd, rfl⟩

theorem callStep_readsNot {alt : Bool} {pc : CallPc H} {st : Stream H} {c : Channel H}
    {out : CallOutcome H} (h : callStep alt pc st c = some out) (hpc : pc.isReading = false) :
    ReadsNot st out := by
  cases call_step h with
  | locks _ | tryTakes _ _ _ | tryEmpty _ | borrowEnds _ | borrowGoes _ | selectCloses _ _
  | selectTakes _ _ _ _ | drainTakes _ _ _ | drainEnds _ => cases hpc
  | replySend _ _ send | writeSend _ _ send | resetSend _ send =>
      exact sendThen_readsNot send rfl rfl
  | pollSend _ | shutdownSend => exact tryThen_readsNot _ _ _ _ rfl rfl
  | _ => exact ⟨rfl, rfl, rfl⟩

/-- What one operation of a call does about the lock. -/
inductive LockStep (pc : CallPc H) (st : Stream H) (out : CallOutcome H) : Prop where
  | keep (holds : out.pc.holdsLock = pc.holdsLock) (flag : out.stream.dataLocked = st.dataLocked)
  | take (free : pc.holdsLock = false ∧ st.dataLocked = false)
      (held : out.pc.holdsLock = true ∧ out.stream.dataLocked = true)
  | release (held : pc.holdsLock = true)
      (free : out.pc.holdsLock = false ∧ out.stream.dataLocked = false)

theorem callStep_lock {alt : Bool} {pc : CallPc H} {st : Stream H} {c : Channel H}
    {out : CallOutcome H} (h : callStep alt pc st c = some out) : LockStep pc st out := by
  by_cases hpc : pc.isReading = false
  · have hnot := callStep_readsNot h hpc
    refine .keep ?_ hnot.locked
    rw [CallPc.holdsLock_of_notReading hpc, CallPc.holdsLock_of_notReading hnot.reading]
  · cases call_step h with
    | locks free => exact .take ⟨rfl, free⟩ ⟨rfl, rfl⟩
    | tryEmpty _ | borrowGoes _ | selectCloses _ _ => exact .keep rfl rfl
    | tryTakes _ _ _ | borrowEnds _ | selectTakes _ _ _ _ | drainTakes _ _ _ | drainEnds _ =>
        exact .release rfl ⟨rfl, rfl⟩
    | _ => exact absurd rfl hpc

/-- A call that is dropped gives the lock back. -/
theorem callCancel_lock {pc pc' : CallPc H} {st st' : Stream H}
    (h : callCancel pc st = some (pc', st')) : pc'.holdsLock = false ∧
      st'.dataLocked = if pc.holdsLock then false else st.dataLocked := by
  cases pc with
  | replySend _ _ | writeSend _ _ | writeWait _ _ _ | resetSend _ | readLock | readSelect =>
      cases h
      exact ⟨rfl, rfl⟩
  | _ => cases h

theorem entry_lock (r : Request H) : r.entry.holdsLock = false := by
  cases r with
  | _ => rfl

/-! ## One holder -/

/-- The lock of `data_rx` of stream `o` is taken. -/
def State.dataLocked (o : Nat) (s : State H) : Bool :=
  match s.objs[o]? with
  | none => false
  | some st => st.dataLocked

theorem dataLocked_of_get {s : State H} {o : Nat} {st : Stream H} (h : s.objs[o]? = some st) :
    s.dataLocked o = st.dataLocked := by
  rw [State.dataLocked, h]

/-- The `j`-th call holds the lock of stream `o`. -/
def State.Holds (o j : Nat) (s : State H) : Prop :=
  ∃ pc, s.pcOf o j = some pc ∧ pc.holdsLock = true

/-- The lock of a stream is taken if and only if a call holds it, and then one call
alone. -/
structure Locked (o : Nat) (s : State H) : Prop where
  taken : ∀ j, s.Holds o j → s.dataLocked o = true
  holder : s.dataLocked o = true → ∃ j, s.Holds o j
  unique : ∀ i j, s.Holds o i → s.Holds o j → i = j

theorem Locked.congr {o : Nat} {s s' : State H} (h : Locked o s)
    (hflag : s'.dataLocked o = s.dataLocked o) (hholds : ∀ j, s'.Holds o j ↔ s.Holds o j) :
    Locked o s' := by
  refine ⟨fun j hj => ?_, fun hset => ?_, fun i j hi hj => ?_⟩
  · rw [hflag]
    exact h.taken j ((hholds j).mp hj)
  · obtain ⟨j, hj⟩ := h.holder (hflag ▸ hset)
    exact ⟨j, (hholds j).mpr hj⟩
  · exact h.unique i j ((hholds i).mp hi) ((hholds j).mp hj)

/-- What holds of the places of the calls when call `j` is at `pc`. -/
theorem holds_of_calls {o j : Nat} {s s' : State H} {pc : CallPc H}
    (hpcs : ∀ i, s'.pcOf o i = if i = j then some pc else s.pcOf o i) (i : Nat) :
    s'.Holds o i ↔ if i = j then pc.holdsLock = true else s.Holds o i := by
  rw [State.Holds, hpcs]
  split
  · simp
  · rfl

theorem Locked.call {o j : Nat} {alt : Bool} {pc : CallPc H} {st : Stream H} {out : CallOutcome H}
    {s s' : State H} (h : Locked o s) (hpc : s.pcOf o j = some pc) (hst : s.objs[o]? = some st)
    (hout : callStep alt pc st s.writeChannel = some out) (hnow : s'.objs[o]? = some out.stream)
    (hpcs : ∀ i, s'.pcOf o i = if i = j then some out.pc else s.pcOf o i) : Locked o s' := by
  have hflag := dataLocked_of_get hst
  have hflag' := dataLocked_of_get hnow
  have hholds := holds_of_calls hpcs
  have hown : s.Holds o j ↔ pc.holdsLock = true := by simp [State.Holds, hpc]
  cases callStep_lock hout with
  | keep holds flag =>
      refine h.congr (by rw [hflag', hflag, flag]) fun i => ?_
      rw [hholds]
      split
      · rename_i hi
        rw [hi, hown, holds]
      · rfl
  | take free held =>
      have hnone : ∀ i, ¬ s.Holds o i := fun i hi => by
        have hset := h.taken i hi
        rw [hflag, free.2] at hset
        cases hset
      have honly : ∀ i, s'.Holds o i → i = j := fun i hi => by
        rw [hholds] at hi
        split at hi
        · assumption
        · exact absurd hi (hnone i)
      refine ⟨fun _ _ => hflag'.trans held.2, fun _ => ⟨j, ?_⟩, fun i i' hi hi' => ?_⟩
      · rw [hholds, if_pos rfl]
        exact held.1
      · rw [honly i hi, honly i' hi']
  | release held free =>
      have hnone : ∀ i, ¬ s'.Holds o i := fun i hi => by
        rw [hholds] at hi
        split at hi
        · rw [free.1] at hi
          cases hi
        · rename_i hne
          exact hne (h.unique i j hi (hown.mpr held))
      refine ⟨fun i hi => absurd hi (hnone i), fun hset => ?_, fun i _ hi => absurd hi (hnone i)⟩
      rw [hflag', free.2] at hset
      cases hset

theorem Locked.cancel {o j : Nat} {pc pc' : CallPc H} {st st' : Stream H} {s s' : State H}
    (h : Locked o s) (hpc : s.pcOf o j = some pc) (hst : s.objs[o]? = some st)
    (hout : callCancel pc st = some (pc', st')) (hnow : s'.objs[o]? = some st')
    (hpcs : ∀ i, s'.pcOf o i = if i = j then some pc' else s.pcOf o i) : Locked o s' := by
  have hflag := dataLocked_of_get hst
  have hflag' := dataLocked_of_get hnow
  have hholds := holds_of_calls hpcs
  have hown : s.Holds o j ↔ pc.holdsLock = true := by simp [State.Holds, hpc]
  obtain ⟨hfree, hlocked⟩ := callCancel_lock hout
  cases hheld : pc.holdsLock with
  | false =>
      rw [hheld] at hlocked
      refine h.congr (by rw [hflag', hflag]; exact hlocked) fun i => ?_
      rw [hholds]
      split
      · rename_i hi
        rw [hi, hown, hfree, hheld]
      · rfl
  | true =>
      rw [hheld] at hlocked
      have hnone : ∀ i, ¬ s'.Holds o i := fun i hi => by
        rw [hholds] at hi
        split at hi
        · rw [hfree] at hi
          cases hi
        · rename_i hne
          exact hne (h.unique i j hi (hown.mpr hheld))
      refine ⟨fun i hi => absurd hi (hnone i), fun hset => ?_, fun i _ hi => absurd hi (hnone i)⟩
      rw [hflag', hlocked] at hset
      cases hset

theorem onStream_dataLocked (op : WorkerOp) (st : Stream H) :
    (op.onStream st).dataLocked = st.dataLocked := by
  cases op with
  | pushData data =>
      simp only [WorkerOp.onStream, Stream.pushData]
      split
      · rfl
      · rfl
  | _ => rfl

variable {guard : List (Event H) → State H → Action H → Prop} {evs : List (Event H)} {s : State H}

/-- At every moment of a run the lock of a stream has the holder it should have. -/
theorem locked_run (h : (connection H).Run guard evs s) (o : Nat) : Locked o s := by
  refine h.invariant (I := fun _ s => Locked o s) ?_ ?_
  · have hnone : ∀ j, ¬ ((connection H).start).Holds o j := by
      rintro j ⟨pc, hpc, -⟩
      cases hpc
    exact ⟨fun j hj => absurd hj (hnone j), fun hset => absurd hset Bool.false_ne_true,
      fun i _ hi => absurd hi (hnone i)⟩
  · intro evs es s s' a hrun _ hs ih
    have hsame : ∀ {s' : State H}, (∀ j, s'.pcOf o j = s.pcOf o j) →
        ∀ j, s'.Holds o j ↔ s.Holds o j := fun hpcs j => by rw [State.Holds, State.Holds, hpcs]
    cases stream_step hrun hs o with
    | call j alt pc st out action get obj outcome now calls events =>
        exact ih.call get obj outcome now calls
    | cancel j pc pc' st st' action get obj outcome now calls events =>
        exact ih.cancel get obj outcome now calls
    | invoke j r action fresh now calls events =>
        refine ih.congr (by rw [State.dataLocked, State.dataLocked, now]) fun i => ?_
        rw [holds_of_calls calls]
        split
        · rename_i hi
          rw [hi, entry_lock]
          simp [State.Holds, fresh]
        · rfl
    | work i op rest st action stream todo obj now calls events =>
        refine ih.congr ?_ (hsame calls)
        rw [dataLocked_of_get now, dataLocked_of_get obj, onStream_dataLocked]
    | sweep st sweeps obj now calls events =>
        refine ih.congr ?_ (hsame calls)
        rw [dataLocked_of_get now, dataLocked_of_get obj]
        rfl
    | make f pc before now calls events =>
        refine ih.congr ?_ (hsame calls)
        rw [dataLocked_of_get now, State.dataLocked, before]
        rfl
    | other same calls unswept silent sent =>
        exact ih.congr (by rw [State.dataLocked, State.dataLocked, same]) (hsame calls)

end SpdyStream.Session
