/-
  Session/Teardown.lean --- what the end of the read task leaves behind.

  The teardown closes the streams it finds in the map when it takes the lock of
  `streams`.  A stream that is not there was removed for an RST_STREAM, and closed
  just before that.  So in the end every stream is closed, and no `read_data` sleeps.
-/
import SpdyStream.Session.Finished
import SpdyStream.Session.Readers

set_option autoImplicit false

namespace SpdyStream.Session

open SpdyStream.Foundation
open SpdyStream.Framing

variable {H : Type}

/-! ## Closed streams stay closed -/

theorem isRemoteClosed_of_get {s : State H} {o : Nat} {st : Stream H} (h : s.objs[o]? = some st) :
    s.isRemoteClosed o = st.remoteClosed := by
  rw [State.isRemoteClosed, h]

theorem onStream_closed {op : WorkerOp} {st : Stream H} :
    (op.onStream st).remoteClosed = true ↔ st.remoteClosed = true ∨ op = .closeRemote := by
  cases op with
  | closeRemote => simp [WorkerOp.onStream, Stream.closeRemote]
  | pushData data =>
      simp only [WorkerOp.onStream, Stream.pushData]
      split
      · simp
      · simp
  | _ => simp [WorkerOp.onStream]

variable {guard : List (Event H) → State H → Action H → Prop} {evs : List (Event H)} {s : State H}

theorem worked_concerns {o : Nat} {op : WorkerOp} :
    (Event.worked o op : Event H).concerns o = true := decide_eq_true rfl

theorem remoteClosed_step (hrun : (connection H).Run guard evs s) {s' : State H} {a : Action H}
    {es : List (Event H)} (hs : s.step a = some (s', es)) {o : Nat} {k : UInt32}
    (hk : s.ids[o]? = some k) : s'.isRemoteClosed o = true ↔
      s.isRemoteClosed o = true ∨ .worked o .closeRemote ∈ es ∨ s.sweeps o a = true := by
  obtain ⟨st₀, hst₀, -⟩ := Option.map_eq_some_iff.mp (List.getElem?_map ▸ hk)
  cases stream_step hrun hs o with
  | call j alt pc st out action get obj outcome now calls events =>
      have hnot : .worked o .closeRemote ∉ es := fun hmem => by
        rw [events] at hmem
        rcases mem_callEvents outcome hmem with ⟨d, heq⟩ | ⟨f, heq, -⟩
        · cases heq
        · cases heq
      have hside := congrArg Prod.snd (callStep_keeps outcome).peerSide
      rw [isRemoteClosed_of_get now, isRemoteClosed_of_get obj]
      simp only [hnot, action, State.sweeps, Bool.false_eq_true, or_false]
      exact iff_of_eq (congrArg (· = true) hside)
  | cancel j pc pc' st st' action get obj outcome now calls events =>
      have hside := congrArg Prod.snd (callCancel_keeps outcome).1
      rw [isRemoteClosed_of_get now, isRemoteClosed_of_get obj]
      simp only [events, action, State.sweeps, Bool.false_eq_true, or_false, List.not_mem_nil]
      exact iff_of_eq (congrArg (· = true) hside)
  | invoke j r action fresh now calls events =>
      rw [State.isRemoteClosed, State.isRemoteClosed, now]
      simp [events, action, State.sweeps]
  | work i op rest st action stream todo obj now calls events =>
      have hmem : .worked o .closeRemote ∈ es ↔ op = .closeRemote := by
        rw [events, List.mem_cons]
        constructor
        · rintro (heq | hmem)
          · cases heq
            rfl
          · cases op with
            | pushData _ | removeStream => cases List.mem_singleton.mp hmem
            | _ => cases hmem
        · rintro rfl
          exact .inl rfl
      rw [isRemoteClosed_of_get now, isRemoteClosed_of_get obj, onStream_closed, hmem, action]
      simp [State.sweeps]
  | sweep st sweeps obj now calls events =>
      rw [isRemoteClosed_of_get now, sweeps]
      simp [Stream.closeRemote]
  | make f pc before now calls events => cases hst₀.symm.trans before
  | other same calls unswept silent sent =>
      have hnot : .worked o .closeRemote ∉ es := fun hmem => by
        have hfalse := silent _ hmem
        rw [worked_concerns] at hfalse
        cases hfalse
      have hunswept : s.sweeps o a ≠ true := fun hsweep => by
        cases hst₀.symm.trans (unswept hsweep)
      rw [State.isRemoteClosed, State.isRemoteClosed, same]
      simp [hnot, hunswept]

/-- A stream that is made is not closed. -/
theorem remoteClosed_new (hrun : (connection H).Run guard evs s) {s' : State H} {a : Action H}
    {es : List (Event H)} (hs : s.step a = some (s', es)) {o : Nat} (hnone : s.objs[o]? = none) :
    s'.isRemoteClosed o = false := by
  cases stream_step hrun hs o with
  | make f pc before now calls events => exact isRemoteClosed_of_get now
  | invoke j r action fresh now calls events => rw [State.isRemoteClosed, now, hnone]
  | other same calls unswept silent sent => rw [State.isRemoteClosed, same, hnone]
  | call j alt pc st out action get obj outcome now calls events => cases hnone.symm.trans obj
  | cancel j pc pc' st st' action get obj outcome now calls events => cases hnone.symm.trans obj
  | work i op rest st action stream todo obj now calls events => cases hnone.symm.trans obj
  | sweep st sweeps obj now calls events => cases hnone.symm.trans obj

theorem remoteClosed_stays (hrun : (connection H).Run guard evs s) {s' : State H} {a : Action H}
    {es : List (Event H)} (hs : s.step a = some (s', es)) {o : Nat}
    (hclosed : s.isRemoteClosed o = true) : s'.isRemoteClosed o = true := by
  cases hst : s.objs[o]? with
  | none =>
      rw [State.isRemoteClosed, hst] at hclosed
      cases hclosed
  | some st => exact (remoteClosed_step hrun hs (ids_of_get hst)).mpr (.inl hclosed)

/-- A worker works on streams that have been made. -/
theorem worked_id (hrun : (connection H).Run guard evs s) {s' : State H} {a : Action H}
    {es : List (Event H)} (hs : s.step a = some (s', es)) {o : Nat} {op : WorkerOp}
    (he : .worked o op ∈ es) : ∃ k, s.ids[o]? = some k := by
  have hop := mem_workedOn.mpr he
  cases workers_step hs with
  | same workers silent =>
      rw [(silent o).2.2] at hop
      cases hop
  | put o' f pc workers events =>
      rw [events] at he
      cases List.mem_singleton.mp he
  | take i m rest idle queue workers events =>
      rw [events] at he
      cases List.mem_singleton.mp he
  | work i op' rest todo workers silent worked =>
      rw [worked o] at hop
      split at hop
      · rename_i hstream
        obtain ⟨k, hk, -⟩ := (workers_sound hrun i).todo (by rw [todo]; exact List.cons_ne_nil _ _)
        exact ⟨k, hstream ▸ hk⟩
      · cases hop

/-- A stream that a worker has closed is closed. -/
theorem closed_of_worked (h : (connection H).Run guard evs s) {o : Nat}
    (he : .worked o .closeRemote ∈ evs) : s.isRemoteClosed o = true := by
  refine h.invariant (I := fun evs s => .worked o .closeRemote ∈ evs → s.isRemoteClosed o = true)
    ?_ ?_ he
  · intro he
    cases he
  · intro evs es s s' a hrun _ hs ih he
    rcases List.mem_append.mp he with he | he
    · exact remoteClosed_stays hrun hs (ih he)
    · obtain ⟨k, hk⟩ := worked_id hrun hs he
      exact (remoteClosed_step hrun hs hk).mpr (.inr (.inl he))

/-- Among the operations of frames a removal comes behind a close. -/
theorem close_before_remove {fs : List (Frame H)} {ops : List WorkerOp}
    (hpre : ops <+: fs.flatMap workerOps) (h : .removeStream ∈ ops) : .closeRemote ∈ ops := by
  induction fs generalizing ops with
  | nil =>
      rw [List.prefix_nil.mp hpre] at h
      cases h
  | cons f fs ih =>
      rw [List.flatMap_cons] at hpre
      rcases List.prefix_or_prefix_of_prefix hpre (List.prefix_append _ _) with hshort | ⟨rest, rfl⟩
      · obtain ⟨r, rfl⟩ := removeStream_mem (hshort.subset h)
        cases ops with
        | nil => cases h
        | cons op ops =>
            obtain ⟨rfl, -⟩ := List.cons_prefix_cons.mp hshort
            exact List.mem_cons_self
      · rcases List.mem_append.mp h with h | h
        · obtain ⟨r, rfl⟩ := removeStream_mem h
          simp [workerOps]
        · exact List.mem_append_right _ (ih ((List.prefix_append_right_inj _).mp hpre) h)

/-- A stream that was removed is closed. -/
theorem closed_of_removed (h : (connection H).Run guard evs s) {o : Nat} {found : Option Nat}
    (he : .removed o found ∈ evs) : s.isRemoteClosed o = true := by
  have hremove := mem_workedOn.mpr ((removed_iff_worked h o).mpr ⟨found, he⟩)
  have hpre : evs.flatMap (Event.workedOn o) <+:
      (evs.flatMap (Event.appliedTo o)).flatMap workerOps := by
    rw [ops_eq_worked h o]
    exact List.prefix_append _ _
  exact closed_of_worked h (mem_workedOn.mp (close_before_remove hpre hremove))

/-! ## The teardown -/

/-- What the teardown has still to close, once it has begun. -/
def ReadTask.unswept : ReadTask H → Option (List Nat)
  | .sweep rest => some rest
  | .finalClose | .finished => some []
  | _ => none

/-- What a step does to the teardown. -/
inductive TeardownMove (s : State H) (a : Action H) (s' : State H) : Prop where
  /-- it is not under way -/
  | outside (before : s.readTask.unswept = none) (after : s'.readTask.unswept = none)
  | begins (pick : Nat) (action : a = .readTask pick) (pc : s.readTask = .lockStreams)
      (after : s'.readTask.unswept = some s.present)
      (objs : s'.objs = s.objs)
  | sweeps (rest : List Nat) (pick o : Nat) (action : a = .readTask pick)
      (pc : s.readTask = .sweep rest) (get : rest[pick]? = some o)
      (after : s'.readTask.unswept = some (rest.eraseIdx pick))
  | stays (same : s'.readTask.unswept = s.readTask.unswept)

theorem readTask_teardown {s s' : State H} {pick : Nat} {es : List (Event H)}
    (h : s.readStep pick = some (s', es)) : TeardownMove s (.readTask pick) s' := by
  cases task_step h with
  | locks pc => exact .begins pick rfl pc rfl rfl
  | sweeps rest o pc get => exact .sweeps rest pick o rfl pc get rfl
  | swept pc | ends pc => exact .stays (by rw [pc]; rfl)
  | routes holds move =>
      cases move with
      | plain _ before _ _ _ => cases holds.symm.trans before
      | answer _ _ _ pc _ _ => cases holds.symm.trans (ReadTask.holdsFrame_of_answer pc)
      | missed f pc _ =>
          refine .outside (by rw [pc]; rfl) ?_
          cases f with
          | _ => rfl
      | stale _ pc _ | checked _ pc _ | refused _ pc _ | passed _ pc _ | taken _ pc _
      | accept _ pc _ | publish _ _ pc | found _ _ pc _ | deliver _ _ pc _ =>
          exact .outside (by rw [pc]; rfl) rfl
  | inUse _ pc send | responds _ pc send =>
      obtain ⟨⟨s₁, es₁⟩, -, hr⟩ := Option.map_eq_some_iff.mp send
      cases hr
      exact .outside (by rw [pc]; rfl) rfl
  | resolves _ pc | goesAway pc | closes pc => exact .outside (by rw [pc]; rfl) rfl

theorem teardown_step {s s' : State H} {a : Action H} {es : List (Event H)}
    (hs : s.step a = some (s', es)) : TeardownMove s a s' := by
  cases a with
  | read f =>
      simp only [State.step, State.readFrame] at hs
      split at hs
      · rename_i hpc
        cases hs
        refine .outside (by rw [hpc]; rfl) ?_
        cases f with
        | synStream g =>
            simp only [dispatch]
            split
            · rfl
            · rfl
        | ping p =>
            simp only [dispatch]
            split
            · rfl
            · rfl
        | _ => rfl
      · cases hs
  | readFail | readPanic =>
      simp only [State.step, State.readEnds] at hs
      split at hs
      · rename_i hpc
        cases hs
        exact .outside (by rw [hpc]; rfl) rfl
      · cases hs
  | readTask pick => exact readTask_teardown hs
  | workerRecv i => exact .stays (by rw [(workerRecv_move hs).readTask])
  | workerRun i => exact .stays (by rw [(workerRun_move hs).readTask])
  | _ => exact .stays (by rw [(aside_step rfl hs).aside.readTask])

theorem mem_eraseIdx_of_ne {α : Type} {l : List α} {i : Nat} {x y : α} (hx : l[i]? = some x)
    (hy : y ∈ l) (hne : y ≠ x) : y ∈ l.eraseIdx i := by
  obtain ⟨hi, rfl⟩ := List.getElem?_eq_some_iff.mp hx
  rw [← List.take_append_drop i l, List.drop_eq_getElem_cons hi, List.mem_append,
    List.mem_cons] at hy
  rw [List.eraseIdx_eq_take_drop_succ, List.mem_append]
  rcases hy with hy | heq | hy
  · exact .inl hy
  · exact absurd heq hne
  · exact .inr hy

/-- Once the teardown has begun no stream is made, and those that are not closed are
among those it has still to close. -/
theorem unswept_run (h : (connection H).Run guard evs s) {rest : List Nat}
    (hrest : s.readTask.unswept = some rest) {o : Nat} {k : UInt32} (hk : s.ids[o]? = some k) :
    s.isRemoteClosed o = true ∨ o ∈ rest := by
  refine h.invariant (I := fun _ s => ∀ rest, s.readTask.unswept = some rest →
    ∀ o k, s.ids[o]? = some k → s.isRemoteClosed o = true ∨ o ∈ rest) ?_ ?_ rest hrest o k hk
  · intro rest hrest
    cases hrest
  · intro evs es s s' a hrun _ hs ih rest hrest o k hk
    have hstays := remoteClosed_stays hrun hs (o := o)
    cases teardown_step hs with
    | outside before after =>
        rw [after] at hrest
        cases hrest
    | begins pick action pc after objs =>
        rw [after] at hrest
        cases hrest
        rw [State.ids, objs] at hk
        rcases present_or_removed hrun hk with hlookup | hremoved
        · exact .inr (mem_present.mpr ⟨k, hlookup⟩)
        · exact .inl (hstays (closed_of_removed hrun hremoved))
    | sweeps rest' pick o' action pc get after =>
        rw [after] at hrest
        cases hrest
        rcases id_before hrun hs hk with hid | ⟨f, hpc⟩
        · by_cases ho : o = o'
          · subst ho
            have hsweeps : s.sweeps o a = true := by simp [action, State.sweeps, pc, get]
            exact .inl ((remoteClosed_step hrun hs hid).mpr (.inr (.inr hsweeps)))
          · rcases ih rest' (by rw [pc]; rfl) o k hid with hclosed | hmem
            · exact .inl (hstays hclosed)
            · exact .inr (mem_eraseIdx_of_ne get hmem ho)
        · cases pc.symm.trans hpc
    | stays same =>
        rw [same] at hrest
        rcases id_before hrun hs hk with hid | ⟨f, hpc⟩
        · exact (ih rest hrest o k hid).imp_left hstays
        · rw [hpc] at hrest
          cases hrest

/-! ## Readers after the teardown -/

/-- The `j`-th call can go on. -/
def State.CanStep (j : Nat) (s : State H) : Prop :=
  ∃ alt, (s.step (.call j alt)).isSome = true

/-- How far a call that holds the lock of a closed stream is from its return. -/
def CallPc.lockRank : CallPc H → Nat
  | .readTry | .readSelect => 2
  | .readBorrow | .readDrain => 1
  | _ => 0

theorem canStep_of_outcome {o j : Nat} {pc : CallPc H} {st : Stream H}
    (hpc : s.pcOf o j = some pc) (hst : s.objs[o]? = some st) (alt : Bool)
    (hout : (callStep alt pc st s.writeChannel).isSome = true) : s.CanStep j := by
  obtain ⟨out, hout⟩ := Option.isSome_iff_exists.mp hout
  refine ⟨alt, ?_⟩
  simp only [State.step, State.stepCall, pcOf_eq_some.mp hpc, hst, hout]
  rfl

/-- The holder of the lock of a closed stream never waits. -/
theorem holder_steps {pc : CallPc H} (hpc : pc.holdsLock = true) {st : Stream H}
    (hclosed : st.remoteClosed = true) (c : Channel H) : (callStep true pc st c).isSome = true := by
  cases pc with
  | readTry | readDrain =>
      cases hqueue : st.dataQueue with
      | nil => simp [callStep, hqueue]
      | cons d rest => simp [callStep, hqueue]
  | readBorrow | readSelect => simp [callStep, hclosed]
  | _ => cases hpc

/-- Every step of the holder brings it nearer to its return. -/
theorem holder_advances {alt : Bool} {pc : CallPc H} {st : Stream H} {c : Channel H}
    {out : CallOutcome H} (h : callStep alt pc st c = some out) (hpc : pc.holdsLock = true)
    (hclosed : st.remoteClosed = true) : out.pc.lockRank < pc.lockRank := by
  cases call_step h with
  | tryTakes _ _ _ | tryEmpty _ | borrowEnds _ | selectCloses _ _ | selectTakes _ _ _ _
  | drainTakes _ _ _ | drainEnds _ => exact Nat.lt_of_sub_eq_succ rfl
  | borrowGoes here =>
      rw [hclosed] at here
      cases here
  | _ => cases hpc

/-- No reader of stream `o` sleeps for ever: the stream is closed, a call of
`read_data` can go on or waits for the lock of one that can, and the holder of the
lock is back after at most two steps. -/
structure ReadersAwake (o : Nat) (s : State H) : Prop where
  closed : s.isRemoteClosed o = true
  awake : ∀ j pc, s.pcOf o j = some pc → pc.isReading = true →
    s.CanStep j ∨ ∃ i, s.Holds o i ∧ s.CanStep i
  leaves : ∀ i alt pc st out, s.pcOf o i = some pc → pc.holdsLock = true → s.objs[o]? = some st →
    callStep alt pc st s.writeChannel = some out → out.pc.lockRank < pc.lockRank

theorem readersAwake_of_closed (h : (connection H).Run guard evs s) {o : Nat}
    (hclosed : s.isRemoteClosed o = true) : ReadersAwake o s := by
  cases hst : s.objs[o]? with
  | none =>
      rw [State.isRemoteClosed, hst] at hclosed
      cases hclosed
  | some st =>
      have hflag : st.remoteClosed = true := (isRemoteClosed_of_get hst).symm.trans hclosed
      have hholder : ∀ i pc, s.pcOf o i = some pc → pc.holdsLock = true → s.CanStep i := by
        intro i pc hpc hheld
        exact canStep_of_outcome hpc hst true (holder_steps hheld hflag s.writeChannel)
      refine ⟨hclosed, fun j pc hpc hreading => ?_, fun i alt pc st' out _ hheld hst' hout => ?_⟩
      · by_cases hheld : pc.holdsLock = true
        · exact .inl (hholder j pc hpc hheld)
        · have hwaits : pc = .readLock := by
            cases pc with
            | readLock => rfl
            | _ => exact absurd hreading hheld
          subst hwaits
          cases hlocked : st.dataLocked with
          | false =>
              exact .inl (canStep_of_outcome hpc hst false (by simp [callStep, hlocked]))
          | true =>
              obtain ⟨i, pc, hi, hheld⟩ :=
                (locked_run h o).holder ((dataLocked_of_get hst).trans hlocked)
              exact .inr ⟨i, ⟨pc, hi, hheld⟩, hholder i pc hi hheld⟩
      · rw [hst] at hst'
        cases hst'
        exact holder_advances hout hheld hflag

/-- **After the teardown.**  When the read task has finished, every stream that was
ever accepted is marked remote-closed, and no reader of it sleeps. -/
theorem readers_awake (h : (connection H).Reached evs s) (hdone : s.readTask = .finished)
    {o : Nat} {f : SynStreamFrame H} (he : .accepted o f ∈ evs) : ReadersAwake o s := by
  have hrest : s.readTask.unswept = some [] := by rw [hdone]; rfl
  refine readersAwake_of_closed h ?_
  rcases unswept_run h hrest (accepted_id h he) with hclosed | hmem
  · exact hclosed
  · cases hmem

/-- The read task has come to its end. -/
def ReadTask.isFinished : ReadTask H → Bool
  | .finished => true
  | _ => false

theorem ReadTask.eq_of_isFinished {t : ReadTask H} (h : t.isFinished = true) : t = .finished := by
  cases t with
  | finished => rfl
  | _ => cases h

/-- A reader waits in the `select!`, the input ends, and the reader goes on. -/
theorem readers_awake_atSelect : ∃ evs s, (connection Unit).Reached evs s ∧
    s.readTask.unswept = some [] ∧ s.pcOf 0 0 = some .readSelect ∧ ReadersAwake 0 s := by
  obtain ⟨evs, s, h, hcheck⟩ := Machine.exists_run_of_exec (connection Unit) Machine.free
    (registers (plainSyn 1 0) ++ applies (.synStream (plainSyn 1 0)) ++
      Action.invoke 0 .readData :: calls 0 3 ++
      Action.readFail :: List.replicate 4 (Action.readTask 0))
    (fun evs s => decide (s.readTask.isFinished = true ∧ .accepted 0 (plainSyn 1 0) ∈ evs ∧
      s.pcOf 0 0 = some .readSelect))
    (by decide +kernel)
  obtain ⟨hdone, haccepted, hpc⟩ := of_decide_eq_true hcheck
  have hfinished : s.readTask = .finished := ReadTask.eq_of_isFinished hdone
  exact ⟨evs, s, h, by rw [hfinished]; rfl, hpc, readers_awake h hfinished haccepted⟩

end SpdyStream.Session
