/-
  Session/Drained.lean --- data that is still with the workers when the connection
  ends.

  The close signals of a peer go through the worker of a stream, behind its data.
  The teardown closes the streams from the read task.  It comes behind the data only
  if the workers have pushed it when the teardown begins.
-/
import SpdyStream.Session.EndOfStream

set_option autoImplicit false

namespace SpdyStream.Session

open SpdyStream.Foundation
open SpdyStream.Framing

variable {H : Type}

/-! ## Payloads with the workers -/

/-- The payloads of stream `o` that a worker has in hand or in its channel. -/
def Worker.waitingFor (o : Nat) (w : Worker H) : List Bytes :=
  (w.todoFor o).flatMap WorkerOp.payload ++ (w.queuedFor o).flatMap framePayload

/-- No DATA frame of stream `o` waits with a worker. -/
def State.Drained (o : Nat) (s : State H) : Prop := ∀ i, (s.workers i).waitingFor o = []

instance (o : Nat) (s : State H) : Decidable (s.Drained o) :=
  inferInstanceAs (Decidable (∀ i, (s.workers i).waitingFor o = []))

/-- The teardown does not begin while a DATA frame of stream `o` waits with a worker. -/
def State.beginsDrained (o : Nat) (s : State H) : Action H → Bool
  | .readTask _ =>
      match s.readTask with
      | .lockStreams => decide (s.Drained o)
      | _ => true
  | _ => true

/-- The condition under which the teardown closes stream `o` behind its data. -/
def BeginsDrained (o : Nat) (_ : List (Event H)) (s : State H) (a : Action H) : Prop :=
  s.beginsDrained o a = true

instance (o : Nat) (evs : List (Event H)) (s : State H) (a : Action H) :
    Decidable (BeginsDrained o evs s a) := inferInstanceAs (Decidable (_ = true))

/-- The conditions under which all data of stream `o` comes before its end: the
teardown begins behind it, it is not dropped, and no reader misses it. -/
def DataFirst (o : Nat) (evs : List (Event H)) (s : State H) (a : Action H) : Prop :=
  BeginsDrained o evs s a ∧ RoomFor o evs s a ∧ CloseSettled o evs s a

instance (o : Nat) (evs : List (Event H)) (s : State H) (a : Action H) :
    Decidable (DataFirst o evs s a) := inferInstanceAs (Decidable (_ ∧ _ ∧ _))

variable {guard : List (Event H) → State H → Action H → Prop} {evs : List (Event H)} {s : State H}

/-- Nothing comes to the workers but from the read task. -/
theorem drained_step {s' : State H} {a : Action H} {es : List (Event H)}
    (hs : s.step a = some (s', es)) (hread : ∀ o f, s.readTask ≠ .forward o f) {o : Nat}
    (h : s.Drained o) : s'.Drained o := by
  intro j
  have hj := h j
  cases workers_step hs with
  | same workers silent =>
      rw [workers]
      exact hj
  | put o' f pc workers events => exact absurd pc (hread o' f)
  | take i m rest idle queue workers events =>
      rw [workers]
      by_cases hi : j = i
      · subst hi
        rw [Function.update_self]
        simp only [Worker.waitingFor, Worker.todoFor, Worker.queuedFor, idle, queue] at hj ⊢
        by_cases ho : m.stream = o
        · simpa [ho, workerOps_payload] using hj
        · simpa [ho] using hj
      · rw [Function.update_of_ne hi]
        exact hj
  | work i op rest todo workers silent worked =>
      rw [workers]
      by_cases hi : j = i
      · subst hi
        rw [Function.update_self]
        simp only [Worker.waitingFor, Worker.todoFor, Worker.queuedFor, todo] at hj ⊢
        by_cases ho : (s.workers j).stream = o
        · simp only [ho, if_true, List.flatMap_cons, List.append_eq_nil_iff] at hj ⊢
          exact ⟨hj.1.2, hj.2⟩
        · simpa [ho] using hj
      · rw [Function.update_of_ne hi]
        exact hj

theorem ReadTask.not_forward_of_unswept {t : ReadTask H} {rest : List Nat}
    (h : t.unswept = some rest) (o : Nat) (f : Frame H) : t ≠ .forward o f := by
  rintro rfl
  cases h

/-- Once the teardown has begun no DATA frame of the stream waits with a worker. -/
theorem drained_run {o : Nat} (h : (connection H).Run (BeginsDrained o) evs s) {rest : List Nat}
    (hrest : s.readTask.unswept = some rest) : s.Drained o := by
  refine h.invariant (I := fun _ s => ∀ rest, s.readTask.unswept = some rest → s.Drained o)
    ?_ ?_ rest hrest
  · intro rest hrest
    cases hrest
  · intro evs es s s' a hrun hguard hs ih rest hrest
    cases teardown_step hs with
    | outside before after =>
        rw [after] at hrest
        cases hrest
    | begins pick action pc after objs =>
        have hdrained : s.Drained o := by
          rw [action] at hguard
          simpa [BeginsDrained, State.beginsDrained, pc] using hguard
        refine drained_step hs (fun o' f hforward => ?_) hdrained
        cases pc.symm.trans hforward
    | sweeps rest' pick o' action pc get after =>
        have hbefore : s.readTask.unswept = some rest' := by rw [pc]; rfl
        exact drained_step hs (ReadTask.not_forward_of_unswept hbefore) (ih rest' hbefore)
    | stays same =>
        rw [same] at hrest
        exact drained_step hs (ReadTask.not_forward_of_unswept hrest) (ih rest hrest)

/-! ## Data before the end -/

theorem unswept_stays {s' : State H} {a : Action H} {es : List (Event H)}
    (hs : s.step a = some (s', es)) {rest : List Nat} (hrest : s.readTask.unswept = some rest) :
    ∃ rest', s'.readTask.unswept = some rest' := by
  cases teardown_step hs with
  | outside before after => cases before.symm.trans hrest
  | begins pick action pc after objs => exact ⟨_, after⟩
  | sweeps rest' pick o' action pc get after => exact ⟨_, after⟩
  | stays same => exact ⟨rest, same.trans hrest⟩

theorem unswept_of_sweeps {o : Nat} {a : Action H} (h : s.sweeps o a = true) :
    ∃ rest, s.readTask.unswept = some rest := by
  unfold State.sweeps at h
  split at h
  · split at h
    · rename_i rest hpc
      exact ⟨rest, by rw [hpc]; rfl⟩
    · cases h
  · cases h

/-- What no worker has closed is closed by the teardown. -/
theorem closed_by_teardown (h : (connection H).Run guard evs s) {o : Nat}
    (hclosed : s.isRemoteClosed o = true) (hnot : .worked o .closeRemote ∉ evs) :
    ∃ rest, s.readTask.unswept = some rest := by
  refine h.invariant (I := fun evs s => s.isRemoteClosed o = true → .worked o .closeRemote ∉ evs →
    ∃ rest, s.readTask.unswept = some rest) ?_ ?_ hclosed hnot
  · intro hclosed
    cases hclosed
  · intro evs es s s' a hrun _ hs ih hclosed hnot
    rw [List.mem_append, not_or] at hnot
    cases hst : s.objs[o]? with
    | none =>
        rw [remoteClosed_new hrun hs hst] at hclosed
        cases hclosed
    | some st =>
        rcases (remoteClosed_step hrun hs (ids_of_get hst)).mp hclosed with
          hbefore | hworked | hsweeps
        · obtain ⟨rest, hrest⟩ := ih hbefore hnot.1
          exact unswept_stays hs hrest
        · exact absurd hworked hnot.2
        · obtain ⟨rest, hrest⟩ := unswept_of_sweeps hsweeps
          exact unswept_stays hs hrest

/-- The look at the channel behind the close comes behind the close. -/
theorem closed_of_draining (h : (connection H).Run guard evs s) {o j : Nat} {pc : CallPc H}
    (hpc : s.pcOf o j = some pc) (hdrain : pc.isDraining = true) : s.isRemoteClosed o = true := by
  refine h.invariant (I := fun _ s => ∀ pc, s.pcOf o j = some pc → pc.isDraining = true →
    s.isRemoteClosed o = true) ?_ ?_ pc hpc hdrain
  · intro pc hpc
    cases hpc
  · intro evs es s s' a hrun _ hs ih pc hpc hdrain
    refine remoteClosed_stays hrun hs ?_
    rcases looks_step hrun hs hpc with hbefore | ⟨-, hclosed⟩
    · exact ih pc hbefore hdrain
    · exact hclosed hdrain

/-! ### Up to the peer's end -/

/-- The frames of a stream up to the first with which the peer ends it. -/
def untilEnd : List (Frame H) → List (Frame H)
  | [] => []
  | f :: fs => if endsPeer f then [f] else f :: untilEnd fs

theorem untilEnd_isPrefix (fs : List (Frame H)) : untilEnd fs <+: fs := by
  induction fs with
  | nil => exact List.prefix_refl _
  | cons f fs ih =>
      rw [untilEnd]
      split
      · exact ⟨fs, rfl⟩
      · exact (List.prefix_cons_inj f).mpr ih

theorem untilEnd_append {fs : List (Frame H)} (h : ∃ f ∈ fs, endsPeer f = true)
    (gs : List (Frame H)) : untilEnd (fs ++ gs) = untilEnd fs := by
  induction fs with
  | nil =>
      obtain ⟨f, hf, -⟩ := h
      cases hf
  | cons f fs ih =>
      rw [List.cons_append, untilEnd, untilEnd]
      split
      · rfl
      · rename_i hnot
        obtain ⟨g, hg, hends⟩ := h
        rcases List.mem_cons.mp hg with rfl | hg
        · exact absurd hends hnot
        · rw [ih ⟨g, hg, hends⟩]

/-- The payload of a frame is pushed before its close. -/
theorem payload_before_close {f : Frame H} {ops : List WorkerOp} (hpre : ops <+: workerOps f)
    (hclose : .closeRemote ∈ ops) : framePayload f <+: ops.flatMap WorkerOp.payload := by
  cases f with
  | data df =>
      cases ops with
      | nil => cases hclose
      | cons op ops =>
          obtain ⟨rfl, -⟩ := List.cons_prefix_cons.mp hpre
          exact ⟨ops.flatMap WorkerOp.payload, rfl⟩
  | _ => exact List.nil_prefix

/-- A frame is applied payload first: where the close is among the operations done, so
are the payloads of the frames up to the one that ends the stream. -/
theorem untilEnd_payload {fs : List (Frame H)} (hown : ∀ f ∈ fs, isRoutable f = true)
    {ops : List WorkerOp} (hpre : ops <+: fs.flatMap workerOps) (hclose : .closeRemote ∈ ops) :
    (untilEnd fs).flatMap framePayload <+: ops.flatMap WorkerOp.payload := by
  induction fs generalizing ops with
  | nil =>
      rw [List.prefix_nil.mp hpre] at hclose
      cases hclose
  | cons f fs ih =>
      have hcloses := closes_iff (hown f List.mem_cons_self)
      rw [List.flatMap_cons] at hpre
      rw [untilEnd]
      rcases List.prefix_or_prefix_of_prefix hpre (List.prefix_append _ _) with hshort | ⟨rest, rfl⟩
      · rw [if_pos (hcloses.mp (hshort.subset hclose)), List.flatMap_singleton]
        exact payload_before_close hshort hclose
      · rw [List.flatMap_append, workerOps_payload]
        split
        · rw [List.flatMap_singleton]
          exact List.prefix_append _ _
        · rename_i hnot
          rw [List.flatMap_cons, List.prefix_append_right_inj]
          refine ih (fun g hg => hown g (List.mem_cons_of_mem f hg))
            ((List.prefix_append_right_inj _).mp hpre) ?_
          rcases List.mem_append.mp hclose with hmem | hmem
          · exact absurd (hcloses.mp hmem) hnot
          · exact hmem

theorem accepted_of_closed (h : (connection H).Run guard evs s) {o : Nat}
    (hclosed : s.isRemoteClosed o = true) : ∃ f₀, .accepted o f₀ ∈ evs := by
  cases hst : s.objs[o]? with
  | none =>
      rw [State.isRemoteClosed, hst] at hclosed
      cases hclosed
  | some st =>
      obtain ⟨f₀, he, -⟩ := accepted_of_id h (ids_of_get hst)
      exact ⟨f₀, he⟩

/-- A worker closes a stream for a frame that ends the peer's side, and this frame was
found for the stream. -/
theorem found_of_worked (h : (connection H).Run guard evs s) {o : Nat}
    (hworked : .worked o .closeRemote ∈ evs) :
    ∃ f ∈ evs.flatMap (Event.foundFor o), endsPeer f = true := by
  obtain ⟨f₀, he⟩ := accepted_of_closed h (closed_of_worked h hworked)
  obtain ⟨hlog, hown⟩ := routed_log h he
  have hmem : .closeRemote ∈ (evs.flatMap (Event.routedTo o)).flatMap workerOps := by
    rw [routed_eq_forwarded h o, forwarded_eq_applied h o, List.flatMap_append,
      List.flatMap_append, ops_eq_worked h o]
    simp only [List.mem_append]
    exact .inl (.inl (.inl (mem_workedOn.mpr hworked)))
  rw [hlog, List.flatMap_cons, List.mem_append] at hmem
  rcases hmem with hsyn | hrest
  · cases List.mem_singleton.mp hsyn
  · obtain ⟨f, hf, hop⟩ := List.mem_flatMap.mp hrest
    exact ⟨f, hf, (closes_iff (hown f hf).1).mp hop⟩

/-- Behind a drained teardown all payloads found for a stream have been pushed. -/
theorem found_eq_kept {o : Nat} (h : (connection H).Run (DataFirst o) evs s)
    {rest : List Nat} (hrest : s.readTask.unswept = some rest) :
    (evs.flatMap (Event.foundFor o)).flatMap framePayload = evs.flatMap (Event.keptFor o) := by
  have hdrained := drained_run (h.mono fun _ _ _ h => h.1) hrest
  have hheld : s.readTask.heldFor o = [] := by
    cases hpc : s.readTask with
    | storeLast f o' | forward o' f =>
        rw [hpc] at hrest
        cases hrest
    | _ => rfl
  have hops := congrArg (List.flatMap WorkerOp.payload) (ops_eq_worked h o)
  obtain ⟨htodo, hqueue⟩ := List.append_eq_nil_iff.mp (hdrained (s.home o))
  rw [ops_payloads, List.flatMap_append, htodo, List.append_nil] at hops
  rw [← routed_payloads, routed_eq_forwarded h o, forwarded_eq_applied h o, hheld, List.append_nil,
    List.flatMap_append, hops, hqueue, List.append_nil]
  exact (kept_eq_worked (h.mono fun _ _ _ h => h.2.1)).symm

/-- A frame is found only where the read task looks its stream up. -/
theorem unfound_step {s' : State H} {a : Action H} {es : List (Event H)}
    (hs : s.step a = some (s', es)) (hnot : ∀ f, s.readTask ≠ .lookup f) (o : Nat) :
    es.flatMap (Event.foundFor o) = [] := by
  have hquiet : ∀ e : Event H, e.isQuiet = true → e.foundFor o = [] := fun e he => by
    cases e with
    | lookedUp _ _ => cases he
    | _ => rfl
  cases step_kind hs with
  | aside ha => exact flatMap_quiet hquiet ha.quiet
  | read f pc state events =>
      rw [events, List.flatMap_cons, flatMap_rejectedAtOnce (Event.foundFor o) (fun _ _ => rfl) f]
      rfl
  | move hmove =>
      cases hmove with
      | answer f c es pc channel events => exact flatMap_quiet hquiet (answer_quiet events)
      | found f o' pc hit => exact absurd pc (hnot f)
      | missed f pc miss => exact absurd pc (hnot f)
      | _ => rfl
  | worker i hmove =>
      cases hmove with
      | _ => rfl

/-- What was found for a stream up to the peer's end is settled once it is closed. -/
theorem untilEnd_stays (hrun : (connection H).Run guard evs s) {s' : State H} {a : Action H}
    {es : List (Event H)} (hs : s.step a = some (s', es)) {o : Nat}
    (hclosed : s.isRemoteClosed o = true) :
    untilEnd ((evs ++ es).flatMap (Event.foundFor o)) =
      untilEnd (evs.flatMap (Event.foundFor o)) := by
  rw [List.flatMap_append]
  by_cases hworked : .worked o .closeRemote ∈ evs
  · exact untilEnd_append (found_of_worked hrun hworked) _
  · obtain ⟨rest, hrest⟩ := closed_by_teardown hrun hclosed hworked
    have hnone := unfound_step hs (fun f hlookup => by
      rw [hlookup] at hrest
      cases hrest) o
    rw [hnone, List.append_nil]

/-- All payloads of a closed stream up to the peer's end have been pushed. -/
theorem closed_kept {o : Nat} (h : (connection H).Run (DataFirst o) evs s)
    (hclosed : s.isRemoteClosed o = true) :
    (untilEnd (evs.flatMap (Event.foundFor o))).flatMap framePayload <+:
      evs.flatMap (Event.keptFor o) := by
  by_cases hworked : .worked o .closeRemote ∈ evs
  · obtain ⟨f₀, he⟩ := accepted_of_closed h hclosed
    obtain ⟨hlog, hown⟩ := routed_log h he
    have hops : evs.flatMap (Event.workedOn o) <+:
        .spawnHandler :: (evs.flatMap (Event.foundFor o)).flatMap workerOps := by
      have hall := congrArg (List.flatMap workerOps) (routed_eq_forwarded h o)
      rw [hlog, forwarded_eq_applied h o, List.flatMap_append, List.flatMap_append,
        ops_eq_worked h o, List.append_assoc, List.append_assoc] at hall
      exact ⟨_, hall.symm⟩
    have hclose := mem_workedOn.mpr hworked
    rw [kept_eq_worked (h.mono fun _ _ _ h => h.2.1)]
    cases hdone : evs.flatMap (Event.workedOn o) with
    | nil =>
        rw [hdone] at hclose
        cases hclose
    | cons op ops =>
        rw [hdone] at hops hclose
        obtain ⟨rfl, hrest⟩ := List.cons_prefix_cons.mp hops
        show _ <+: ops.flatMap WorkerOp.payload
        exact untilEnd_payload (fun f hf => (hown f hf).1) hrest
          ((List.mem_cons.mp hclose).resolve_left (by simp))
  · obtain ⟨rest, hrest⟩ := closed_by_teardown h hclosed hworked
    rw [← found_eq_kept h hrest]
    obtain ⟨after, hsplit⟩ := untilEnd_isPrefix (evs.flatMap (Event.foundFor o))
    refine ⟨after.flatMap framePayload, ?_⟩
    rw [← List.flatMap_append, hsplit]

/-- A stream that was not closed before a step is closed by it. -/
theorem closesBy_of_closed (hrun : (connection H).Run guard evs s) {s' : State H} {a : Action H}
    {es : List (Event H)} (hs : s.step a = some (s', es)) {o : Nat}
    (hopen : ¬ s.isRemoteClosed o = true) (hclosed : s'.isRemoteClosed o = true) :
    s.closesBy o a = true := by
  cases hst : s.objs[o]? with
  | none =>
      rw [remoteClosed_new hrun hs hst] at hclosed
      cases hclosed
  | some st =>
      have hcloses := (remoteClosed_step hrun hs (ids_of_get hst)).mp hclosed
      exact closesBy_of_step hrun hs (hcloses.resolve_left hopen)

/-- A close leaves the data channel as it is. -/
theorem closesBy_payloads (hrun : (connection H).Run guard evs s) {s' : State H} {a : Action H}
    {es : List (Event H)} (hs : s.step a = some (s', es)) {o : Nat} (h : s.closesBy o a = true) :
    s'.payloadsOf o = s.payloadsOf o := by
  cases stream_step hrun hs o with
  | call j alt pc st out action get obj outcome now calls events =>
      rw [action] at h
      cases h
  | cancel j pc pc' st st' action get obj outcome now calls events =>
      rw [action] at h
      cases h
  | invoke j r action fresh now calls events => rw [State.payloadsOf, State.payloadsOf, now]
  | work i op rest st action stream todo obj now calls events =>
      rw [State.payloadsOf, State.payloadsOf, now, obj]
      rw [action, State.closesBy, todo] at h
      cases op with
      | closeRemote => rfl
      | _ => cases h
  | sweep st sweeps obj now calls events =>
      rw [State.payloadsOf, State.payloadsOf, now, obj]
      rfl
  | make f pc before now calls events =>
      rw [State.payloadsOf, State.payloadsOf, now, before]
      rfl
  | other same calls unswept silent sent => rw [State.payloadsOf, State.payloadsOf, same]

/-- Over an empty channel they have been delivered as well. -/
theorem closed_delivered {o : Nat} (h : (connection H).Run (DataFirst o) evs s)
    (hclosed : s.isRemoteClosed o = true) (hempty : s.payloadsOf o = []) :
    (untilEnd (evs.flatMap (Event.foundFor o))).flatMap framePayload <+:
      evs.flatMap (Event.deliveredFrom o) := by
  have hkept := closed_kept h hclosed
  rwa [kept_eq_delivered h o, hempty, List.append_nil] at hkept

/-- A reader that stands before the closed flag of a closed stream has them behind it. -/
theorem borrowing_delivered {o : Nat} (h : (connection H).Run (DataFirst o) evs s)
    (hclosed : s.isRemoteClosed o = true) {j : Nat} {pc : CallPc H} (hpc : s.pcOf o j = some pc)
    (hborrow : pc.isBorrowing = true) :
    (untilEnd (evs.flatMap (Event.foundFor o))).flatMap framePayload <+:
      evs.flatMap (Event.deliveredFrom o) := by
  refine h.invariant (I := fun evs s => s.isRemoteClosed o = true → ∀ j pc,
    s.pcOf o j = some pc → pc.isBorrowing = true →
    (untilEnd (evs.flatMap (Event.foundFor o))).flatMap framePayload <+:
      evs.flatMap (Event.deliveredFrom o)) ?_ ?_ hclosed j pc hpc hborrow
  · intro hclosed
    cases hclosed
  · intro evs es s s' a hrun hguard hs ih hnow j pc hpc hborrow
    by_cases hclosed : s.isRemoteClosed o = true
    · rw [untilEnd_stays hrun hs hclosed, List.flatMap_append]
      refine List.IsPrefix.trans ?_ (List.prefix_append _ _)
      rcases looks_step hrun hs hpc with hbefore | ⟨hnone, -⟩
      · exact ih hclosed j pc hbefore hborrow
      · exact closed_delivered hrun hclosed (hnone hborrow)
    · -- the step itself closes the stream, so no reader has missed a payload
      have hby := closesBy_of_closed hrun hs hclosed hnow
      refine closed_delivered (hrun.step hguard hs) hnow ?_
      rw [closesBy_payloads hrun hs hby]
      rw [closesBy_calls hrun hs hby] at hpc
      have hany : s.anyCall o CallPc.isBorrowing = true := anyCall_iff.mpr ⟨j, pc, hpc, hborrow⟩
      have hsettled := hguard.2.2
      simpa [CloseSettled, State.closeSettled, hby, hany] using hsettled

/-! ## The end of the connection -/

/-- The data of stream `o` comes before its end: the teardown closes the stream over no
DATA frame that waits with a worker, and whenever a call is about to return `Ok(None)`
the payloads that were found for the stream, up to the frame with which the peer ended
it, have been returned. -/
structure DataBeforeEnd (o : Nat) (evs : List (Event H)) (s : State H) : Prop where
  swept : ∀ a, s.sweeps o a = true → s.Drained o
  read : ∀ j alt s' es pc, s.step (.call j alt) = some (s', es) → s'.pcOf o j = some pc →
    pc.isEnd = true → (untilEnd (evs.flatMap (Event.foundFor o))).flatMap framePayload <+:
      evs.flatMap (Event.deliveredFrom o)

/-- **Data before the end.**  If the teardown begins only when the DATA frames of the
stream have left the workers, if none is dropped, and if no close comes between the
two looks of a reader that misses a payload, then the data of the stream comes before
its end. -/
theorem data_before_end {o : Nat} (h : (connection H).Run (DataFirst o) evs s) :
    DataBeforeEnd o evs s := by
  constructor
  · intro a hsweeps
    obtain ⟨rest, hrest⟩ := unswept_of_sweeps hsweeps
    exact drained_run (h.mono fun _ _ _ h => h.1) hrest
  · intro j alt s' es pc hs hpc hend
    cases stream_step h hs o with
    | call i alt' pc' st out action get obj outcome now calls events =>
        cases action
        rw [calls, if_pos rfl] at hpc
        cases hpc
        rcases (callStep_end outcome).ending hend with ⟨hborrow, hclosed⟩ | ⟨hdrain, hqueue⟩
        · exact borrowing_delivered h ((isRemoteClosed_of_get obj).trans hclosed) get hborrow
        · refine closed_delivered h (closed_of_draining h get hdrain) ?_
          rw [State.payloadsOf, obj]
          exact hqueue
    | other same calls unswept silent sent =>
        cases hs.symm.trans (end_stuck (calls j ▸ hpc) hend alt)
    | make f pc' before now calls events =>
        cases hs.symm.trans (end_stuck (calls j ▸ hpc) hend alt)
    | sweep st sweeps obj now calls events => cases sweeps
    | cancel i pc' pc'' st st' action get obj outcome now calls events => cases action
    | invoke i r action fresh now calls events => cases action
    | work i op rest st action stream todo obj now calls events => cases action

/-- The `k`-th call is about to return `Ok(None)` from the first stream. -/
def endsNext (k : Nat) (s : State Unit) : Bool :=
  match s.step (.call k false) with
  | some (s', _) => ((s'.pcOf 0 k).map CallPc.isEnd).getD false
  | none => false

theorem step_of_endsNext {k : Nat} {s : State Unit} (h : endsNext k s = true) :
    ∃ s' es pc, s.step (.call k false) = some (s', es) ∧ s'.pcOf 0 k = some pc ∧
      pc.isEnd = true := by
  unfold endsNext at h
  split at h
  · rename_i s' es hs
    cases hpc : s'.pcOf 0 k with
    | none =>
        rw [hpc] at h
        cases h
    | some pc =>
        rw [hpc] at h
        exact ⟨s', es, pc, hs, hpc, h⟩
  · cases h

/-- A payload is pushed and read, the input ends, and the next call is about to return
`Ok(None)`. -/
theorem data_before_end_readFail : ∃ evs s, (connection Unit).Run (DataFirst 0) evs s ∧
    evs.flatMap (Event.deliveredFrom 0) = [[1]] ∧ endsNext 1 s = true ∧
    DataBeforeEnd 0 evs s := by
  obtain ⟨evs, s, h, hcheck⟩ := Machine.exists_run_of_exec (connection Unit) (DataFirst 0)
    (registers (plainSyn 1 0) ++ applies (.synStream (plainSyn 1 0)) ++
      routes (plainData 1) ++ applies (plainData 1) ++ reads 0 ++
      Action.readFail :: List.replicate 4 (Action.readTask 0) ++
      Action.invoke 0 .readData :: calls 1 2)
    (fun evs s => decide (evs.flatMap (Event.deliveredFrom 0) = [[1]] ∧ endsNext 1 s = true))
    (by decide +kernel)
  obtain ⟨hdelivered, hends⟩ := of_decide_eq_true hcheck
  exact ⟨evs, s, h, hdelivered, hends, data_before_end h⟩

/-- The input ends behind a DATA frame that its worker has not taken: the teardown
closes the stream over it, and a call returns `Ok(None)` before it. -/
theorem teardown_over_data :
    (¬ ∀ evs (s : State Unit) o a, (connection Unit).Reached evs s → s.sweeps o a = true →
      ∀ i, ((s.workers i).queuedFor o).flatMap framePayload = []) ∧
    ¬ ∀ evs (s : State Unit) o j alt s' es pc, (connection Unit).Reached evs s →
      s.step (.call j alt) = some (s', es) → s'.pcOf o j = some pc → pc.isEnd = true →
      (untilEnd (evs.flatMap (Event.foundFor o))).flatMap framePayload <+:
        evs.flatMap (Event.deliveredFrom o) := by
  constructor
  · intro hall
    obtain ⟨evs, s, h, hcheck⟩ := Machine.exists_run_of_exec (connection Unit) Machine.free
      (registers (plainSyn 1 0) ++ applies (.synStream (plainSyn 1 0)) ++
        routes (plainData 1) ++ [Action.readFail, .readTask 0])
      (fun _ s => decide (s.sweeps 0 (.readTask 0) = true ∧
        ¬ ∀ i, ((s.workers i).queuedFor 0).flatMap framePayload = []))
      (by decide +kernel)
    obtain ⟨hsweeps, hwaits⟩ := of_decide_eq_true hcheck
    exact hwaits (hall evs s 0 (.readTask 0) h hsweeps)
  · intro hall
    obtain ⟨evs, s, h, hcheck⟩ := Machine.exists_run_of_exec (connection Unit) Machine.free
      (registers (plainSyn 1 0) ++ applies (.synStream (plainSyn 1 0)) ++
        routes (plainData 1) ++ Action.readFail :: List.replicate 4 (Action.readTask 0) ++
        Action.invoke 0 .readData :: calls 0 2)
      (fun evs s => decide (endsNext 0 s = true ∧
        (untilEnd (evs.flatMap (Event.foundFor 0))).flatMap framePayload = [[1]] ∧
        evs.flatMap (Event.deliveredFrom 0) = []))
      (by decide +kernel)
    obtain ⟨hends, hfound, hdelivered⟩ := of_decide_eq_true hcheck
    obtain ⟨s', es, pc, hs, hpc, hend⟩ := step_of_endsNext hends
    have hpre := hall evs s 0 0 false s' es pc h hs hpc hend
    rw [hfound, hdelivered] at hpre
    exact absurd hpre (by decide)

end SpdyStream.Session
