/-
  Session/HalfClosed.lean --- DATA frames behind the end of the peer's side.

  The read task routes a DATA frame to the stream that the map has under its id,
  whether or not the peer has ended the stream, and the worker pushes the payload.
  So a stream is silent after its end only if the peer is.
-/
import SpdyStream.Session.OneStream
import SpdyStream.Session.Reset

set_option autoImplicit false

namespace SpdyStream.Session

open SpdyStream.Foundation
open SpdyStream.Framing

variable {H : Type}

/-! ## Frames behind the end -/

def isData : Frame H → Bool
  | .data _ => true
  | _ => false

/-- No DATA frame is behind a frame that ends the peer's side. -/
def EndsLast (fs : List (Frame H)) : Prop :=
  fs.Pairwise fun f g => endsPeer f = true → isData g = false

/-- The read task does not find stream `o` for a DATA frame after a frame that ended
it. -/
def State.routesOpen (o : Nat) (evs : List (Event H)) (s : State H) : Action H → Bool
  | .readTask _ =>
      match s.readTask with
      | .lookup (.data df) => decide (s.streams.lookup df.streamId ≠ some o) ||
          !(evs.flatMap (Event.routedTo o)).any endsPeer
      | _ => true
  | _ => true

/-- The condition under which stream `o` gets no payload after its end. -/
def EndRespected (o : Nat) (evs : List (Event H)) (s : State H) (a : Action H) : Prop :=
  s.routesOpen o evs a = true

instance (o : Nat) (evs : List (Event H)) (s : State H) (a : Action H) :
    Decidable (EndRespected o evs s a) := inferInstanceAs (Decidable (_ = true))

/-- A step routes at most one frame to a stream, and a DATA frame only where it is
looked up. -/
theorem routed_step {s s' : State H} {a : Action H} {es : List (Event H)}
    (hs : s.step a = some (s', es)) (o : Nat) :
    es.flatMap (Event.routedTo o) = [] ∨
      ∃ f, es.flatMap (Event.routedTo o) = [f] ∧ (isData f = true →
        (∃ pick, a = .readTask pick) ∧ s.readTask = .lookup f ∧
          s.streams.lookup f.target = some o) := by
  have hquiet : ∀ {es : List (Event H)}, (∀ e ∈ es, e.isQuiet = true) →
      es.flatMap (Event.routedTo o) = [] :=
    fun hes => flatMap_quiet (fun _ he => (Event.routing_quiet he o).1) hes
  cases a with
  | read f =>
      simp only [State.step, State.readFrame] at hs
      split at hs
      · cases hs
        exact .inl (flatMap_rejectedAtOnce (Event.routedTo o) (fun _ _ => rfl) f)
      · cases hs
  | readFail | readPanic =>
      simp only [State.step, State.readEnds] at hs
      split at hs
      · cases hs
        exact .inl rfl
      · cases hs
  | readTask pick =>
      cases readStep_move hs with
      | answer f c es pc channel events => exact .inl (hquiet (answer_quiet events))
      | accept f pc notMem =>
          by_cases ho : s.objs.length = o
          · exact .inr ⟨.synStream f, by simp [Event.routedTo, ho],
              fun hdata => absurd hdata Bool.false_ne_true⟩
          · exact .inl (by simp [Event.routedTo, ho])
      | found f o' pc hit =>
          by_cases ho : o' = o
          · exact .inr ⟨f, by simp [Event.routedTo, ho], fun _ => ⟨⟨pick, rfl⟩, pc, ho ▸ hit⟩⟩
          · exact .inl (by simp [Event.routedTo, ho])
      | _ => exact .inl rfl
  | workerRecv i =>
      cases workerRecv_move hs with
      | _ => exact .inl rfl
  | workerRun i =>
      cases workerRun_move hs with
      | _ => exact .inl rfl
  | _ => exact .inl (hquiet (aside_step rfl hs).aside.quiet)

variable {guard : List (Event H) → State H → Action H → Prop} {evs : List (Event H)} {s : State H}

theorem routed_endsLast {o : Nat} (h : (connection H).Run (EndRespected o) evs s) :
    EndsLast (evs.flatMap (Event.routedTo o)) := by
  refine h.invariant (I := fun evs _ => EndsLast (evs.flatMap (Event.routedTo o)))
    List.Pairwise.nil ?_
  intro evs es s s' a _ hguard hs ih
  rw [List.flatMap_append]
  rcases routed_step hs o with hnone | ⟨g, hone, hlookup⟩
  · rw [hnone, List.append_nil]
    exact ih
  · rw [hone]
    refine List.pairwise_append.mpr ⟨ih, List.pairwise_singleton _ _, fun f hf g' hg' hends => ?_⟩
    rw [List.mem_singleton.mp hg']
    refine eq_false_of_ne_true fun hdata => ?_
    obtain ⟨⟨pick, rfl⟩, hpc, hit⟩ := hlookup hdata
    cases g with
    | data df =>
        have hnot : (evs.flatMap (Event.routedTo o)).any endsPeer = false := by
          have hit : s.streams.lookup df.streamId = some o := hit
          simpa [EndRespected, State.routesOpen, hpc, hit] using hguard
        rw [List.any_eq_false] at hnot
        exact hnot f hf hends
    | _ => cases hdata

/-- What is applied to a stream is the beginning of what was routed to it. -/
theorem applied_prefix_routed (h : (connection H).Run guard evs s) (o : Nat) :
    evs.flatMap (Event.appliedTo o) <+: evs.flatMap (Event.routedTo o) := by
  rw [routed_eq_forwarded h o, forwarded_eq_applied h o, List.append_assoc]
  exact List.prefix_append _ _

/-! ## Payloads behind the end -/

theorem pushData_mem {f : Frame H} {data : Bytes} (h : .pushData data ∈ workerOps f) :
    isData f = true := by
  have hclose : ∀ (p : Prop) [Decidable p], WorkerOp.pushData data ∉ closeIf p := by
    intro p _
    unfold closeIf
    split
    · simp
    · simp
  cases f with
  | data df => rfl
  | synReply sr => simp [workerOps, hclose] at h
  | headers hf => simp [workerOps, hclose] at h
  | rstStream r => simp [workerOps] at h
  | synStream f => simp [workerOps] at h
  | settings _ | ping _ | goAway _ | windowUpdate _ => cases h

/-- A frame is applied in a step of its own, by a worker that is idle. -/
theorem applied_step (hrun : (connection H).Run guard evs s) {s' : State H} {a : Action H}
    {es : List (Event H)} (hs : s.step a = some (s', es)) {o : Nat} {f : Frame H}
    (he : .applied o f ∈ es) :
    es = [.applied o f] ∧ (s.workers (s.home o)).todoFor o = [] := by
  have hmem : f ∈ es.flatMap (Event.appliedTo o) :=
    List.mem_flatMap.mpr ⟨_, he, by simp [Event.appliedTo]⟩
  cases workers_step hs with
  | same workers silent =>
      rw [(silent o).2.1] at hmem
      cases hmem
  | put o' g pc workers events =>
      rw [events] at he
      cases List.mem_singleton.mp he
  | work i op rest todo workers silent worked =>
      rw [(silent o).2] at hmem
      cases hmem
  | take i m rest idle queue workers events =>
      rw [events] at he
      cases List.mem_singleton.mp he
      obtain ⟨hid, hidx⟩ := (workers_sound hrun i).queue m (by rw [queue]; exact List.mem_cons_self)
      rw [home_of_id hid, hidx, Worker.todoFor, idle]
      exact ⟨events, ite_self []⟩

/-- A payload is pushed by the worker that has it in hand. -/
theorem pushed_step (hrun : (connection H).Run guard evs s) {s' : State H} {a : Action H}
    {es : List (Event H)} (hs : s.step a = some (s', es)) {o : Nat} {data : Bytes} {kept : Bool}
    (he : .pushed o data kept ∈ es) :
    (∀ g, Event.applied o g ∉ es) ∧ .pushData data ∈ (s.workers (s.home o)).todoFor o := by
  have hconcerns : (Event.pushed o data kept : Event H).concerns o = true := decide_eq_true rfl
  cases stream_step hrun hs o with
  | work i op rest st action stream todo obj now calls events =>
      obtain ⟨k, hid, hidx⟩ :=
        (workers_sound hrun i).todo (by rw [todo]; exact List.cons_ne_nil _ _)
      rw [stream] at hid
      rw [home_of_id hid, hidx, Worker.todoFor, if_pos stream, todo]
      rw [events] at he ⊢
      rcases List.mem_cons.mp he with heq | he
      · cases heq
      · cases op with
        | pushData data' =>
            cases List.mem_singleton.mp he
            exact ⟨by simp [WorkerOp.shown], List.mem_cons_self⟩
        | removeStream => cases List.mem_singleton.mp he
        | _ => cases he
  | call j alt pc st out action get obj outcome now calls events =>
      rw [events] at he
      rcases mem_callEvents outcome he with ⟨d, heq⟩ | ⟨f, heq, -⟩
      · cases heq
      · cases heq
  | other same calls unswept silent sent =>
      have hfalse := silent _ he
      rw [hconcerns] at hfalse
      cases hfalse
  | _ => simp_all

/-- After a frame that ended the peer's side, once another one is applied, no payload
is added to the stream, and what `read_data` returns was there before. -/
def QuietAfterEnd (o : Nat) (evs : List (Event H)) : Prop :=
  ∀ pre f mid g post, evs = (pre ++ .applied o f :: mid) ++ .applied o g :: post →
    endsPeer f = true → (∀ data, .pushed o data true ∉ post) ∧
      evs.flatMap (Event.deliveredFrom o) <+:
        (pre ++ .applied o f :: mid).flatMap (Event.keptFor o)

/-- A payload that is pushed after a frame was applied is one of this frame or of a
later one. -/
theorem pushed_after (h : (connection H).Run guard evs s) {o : Nat} {data : Bytes} {kept : Bool}
    {pre post : List (Event H)} {g : Frame H} (hevs : evs = pre ++ .applied o g :: post)
    (hpushed : .pushed o data kept ∈ post) :
    ∃ f ∈ g :: post.flatMap (Event.appliedTo o), isData f = true := by
  obtain ⟨mid, rest, rfl⟩ := List.append_of_mem hpushed
  have hsplit : evs = (pre ++ .applied o g :: mid) ++ .pushed o data kept :: rest := by
    rw [hevs, List.append_assoc, List.cons_append]
  obtain ⟨evs₀, s₀, a₀, s₀', es₁, es₂, hrun₀, -, hs₀, hpre₀⟩ := h.step_of_split hevs
  obtain ⟨hone, hidle⟩ := applied_step (o := o) (f := g) hrun₀ hs₀ (by simp)
  have hes₁ : es₁ = [] := by
    cases es₁ with
    | nil => rfl
    | cons x xs => simp at hone
  rw [hes₁, List.append_nil] at hpre₀
  obtain ⟨evs₁, s₁, a₁, s₁', es₃, es₄, hrun₁, -, hs₁, hpre₁⟩ := h.step_of_split hsplit
  have hpushed : .pushed o data kept ∈ es₃ ++ .pushed o data kept :: es₄ := by simp
  obtain ⟨hnone, htodo⟩ := pushed_step hrun₁ hs₁ hpushed
  obtain ⟨past, hpast⟩ := mem_first_of_split hpre₁ fun hmem =>
    hnone g (List.mem_append_left _ hmem)
  -- the operations of `g` and the frames behind it are those done since, and the push
  have hops₀ := ops_eq_worked hrun₀ o
  have hops₁ := ops_eq_worked hrun₁ o
  rw [hidle, List.append_nil, ← hpre₀] at hops₀
  rw [hpast, List.flatMap_append, List.flatMap_append, hops₀, List.flatMap_append,
    List.append_assoc, List.append_cancel_left_eq] at hops₁
  have hmem : .pushData data ∈
      ((Event.applied o g :: past).flatMap (Event.appliedTo o)).flatMap workerOps := by
    rw [hops₁]
    exact List.mem_append_right _ htodo
  obtain ⟨f, hf, hop⟩ := List.mem_flatMap.mp hmem
  have hpost : past ++ es₃ = mid := by
    rw [hpast, List.append_assoc, List.append_cancel_left_eq] at hpre₁
    exact (List.cons.inj hpre₁).2.symm
  refine ⟨f, ?_, pushData_mem hop⟩
  rw [List.flatMap_cons, Event.appliedTo, if_pos rfl] at hf
  rcases List.mem_cons.mp hf with rfl | hf
  · exact List.mem_cons_self
  · rw [← hpost, List.flatMap_append, List.flatMap_append]
    exact List.mem_cons_of_mem g (List.mem_append_left _ (List.mem_append_left _ hf))

/-- **Silence after the end.**  If the read task finds a stream for no DATA frame after
one that ended it, then no payload is added to the stream after its end. -/
theorem quiet_after_end {o : Nat} (h : (connection H).Run (EndRespected o) evs s) :
    QuietAfterEnd o evs := by
  intro pre f mid g post hevs hends
  have hlast : EndsLast (evs.flatMap (Event.appliedTo o)) :=
    (routed_endsLast h).sublist (applied_prefix_routed h o).sublist
  have hsilent : ∀ data kept, .pushed o data kept ∉ post := fun data kept hpushed => by
    obtain ⟨f', hf', hdata⟩ := pushed_after h hevs hpushed
    rw [hevs, List.flatMap_append, List.flatMap_append, List.append_assoc] at hlast
    have hbehind := (List.pairwise_append.mp hlast).2.1
    simp only [List.flatMap_cons, Event.appliedTo, if_true, List.cons_append] at hbehind
    have hnot := List.rel_of_pairwise_cons hbehind (List.mem_append_right _ hf') hends
    rw [hdata] at hnot
    cases hnot
  refine ⟨fun data => hsilent data true, ?_⟩
  have hkept : post.flatMap (Event.keptFor o) = [] := by
    refine List.flatMap_eq_nil_iff.mpr fun e he => ?_
    cases e with
    | pushed o' data kept =>
        cases kept with
        | false => rfl
        | true =>
            refine if_neg ?_
            rintro rfl
            exact hsilent data true he
    | _ => rfl
  have hall : evs.flatMap (Event.keptFor o) =
      (pre ++ .applied o f :: mid).flatMap (Event.keptFor o) := by
    rw [hevs, List.flatMap_append, List.flatMap_cons, hkept]
    simp [Event.keptFor]
  rw [← hall, kept_eq_delivered h o]
  exact List.prefix_append _ _

/-- The peer ends its side with a payload, and then sends HEADERS. -/
theorem quiet_after_end_headers : ∃ evs s, (connection Unit).Run (EndRespected 0) evs s ∧
    evs.flatMap (Event.keptFor 0) = [[1]] ∧
    (evs.flatMap (Event.appliedTo 0)).length = 3 ∧ QuietAfterEnd 0 evs := by
  let f : Frame Unit := .headers { streamId := 1, flags := 0, headers := () }
  obtain ⟨evs, s, h, hcheck⟩ := Machine.exists_run_of_exec (connection Unit) (EndRespected 0)
    (registers (plainSyn 1 0) ++ applies (.synStream (plainSyn 1 0)) ++
      routes (plainLast 1) ++ applies (plainLast 1) ++ routes f ++ applies f)
    (fun evs _ => decide (evs.flatMap (Event.keptFor 0) = [[1]] ∧
      (evs.flatMap (Event.appliedTo 0)).length = 3))
    (by decide +kernel)
  obtain ⟨hkept, happlied⟩ := of_decide_eq_true hcheck
  exact ⟨evs, s, h, hkept, happlied, quiet_after_end h⟩

/-- After a DATA frame with FIN another one is read, and its payload is delivered. -/
theorem delivers_after_end : ¬ ∀ evs (s : State Unit) o, (connection Unit).Reached evs s →
    QuietAfterEnd o evs := by
  intro hall
  obtain ⟨evs, s, h, hcheck⟩ := Machine.exists_run_of_exec (connection Unit) Machine.free
    (registers (plainSyn 1 0) ++ applies (.synStream (plainSyn 1 0)) ++
      routes (plainLast 1) ++ applies (plainLast 1) ++ routes (plainData 2) ++
      applies (plainData 2))
    (fun evs _ => decide (∃ n < evs.length, ∃ m < evs.length,
      evs = (evs.take n ++ .applied 0 (plainLast 1) :: (evs.take m).drop (n + 1)) ++
        .applied 0 (plainData 2) :: evs.drop (m + 1) ∧
      .pushed 0 [2] true ∈ evs.drop (m + 1)))
    (by decide +kernel)
  obtain ⟨n, -, m, -, hevs, hpushed⟩ := of_decide_eq_true hcheck
  exact (hall evs s 0 h _ _ _ _ _ hevs (by decide)).1 [2] hpushed

end SpdyStream.Session
