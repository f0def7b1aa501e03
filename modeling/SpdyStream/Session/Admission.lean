/-
  Session/Admission.lean --- which SYN_STREAM frames make a stream, and what
  becomes of the others.

  The parts come from the registry and from routing; what is added here is that a
  handler is started by the SYN_STREAM of its stream only, and that a rejection
  leaves the map and the counter as they are.
-/
import SpdyStream.Session.Routing

set_option autoImplicit false

namespace SpdyStream.Session

open SpdyStream.Foundation
open SpdyStream.Framing

variable {H : Type}

/-! ## The counter -/

/-- The counter changes where an accepted id is stored in it, and nowhere else. -/
theorem last_step {s s' : State H} {a : Action H} {es : List (Event H)}
    (hs : s.step a = some (s', es)) :
    s'.lastClientStreamId = s.lastClientStreamId ∨
      ∃ f o, s.readTask = .storeLast f o ∧ s'.lastClientStreamId = f.streamId := by
  cases step_kind hs with
  | aside ha => exact .inl ha.last
  | read f pc state events => exact .inl (by rw [state])
  | move hmove =>
      cases hmove with
      | plain still before next loop mute => exact .inl still.last
      | publish f o pc => exact .inr ⟨f, o, pc, rfl⟩
      | _ => exact .inl rfl
  | worker i hmove =>
      cases hmove with
      | _ => exact .inl rfl

/-- A rejection leaves the map and the counter, and the next thing the read task
does is answer it. -/
theorem rejected_step {s s' : State H} {a : Action H} {es : List (Event H)}
    {f : SynStreamFrame H} {status : RstStatus} (hreg : Registry s)
    (hs : s.step a = some (s', es)) (he : .rejected f status ∈ es) :
    s'.streams = s.streams ∧ s'.lastClientStreamId = s.lastClientStreamId ∧
      s'.readTask = .respond (rstFor f status) := by
  cases step_kind hs with
  | aside ha => cases ha.quiet _ he
  | read g pc state events =>
      rw [events] at he
      rcases List.mem_cons.mp he with he | he
      · cases he
      · obtain ⟨sf, rfl, hid, heq⟩ := mem_rejectedAtOnce he
        cases heq
        rw [state]
        exact ⟨rfl, rfl, if_pos hid⟩
  | move hmove =>
      cases hmove with
      | plain still before next loop mute => cases he
      | answer g c es pc channel events => cases answer_quiet events _ he
      | stale g pc _ | refused g pc _ =>
          cases List.mem_singleton.mp he
          exact ⟨rfl, rfl, rfl⟩
      | taken g pc mem => exact absurd mem (hreg.not_taken pc)
      | _ => simp at he
  | worker i hmove =>
      cases hmove with
      | _ => simp at he

/-! ## Handlers -/

/-- The streams whose handler was started. -/
def Event.handlerStarted : Event H → List Nat
  | .worked o .spawnHandler => [o]
  | _ => []

theorem count_handlerStarted (evs : List (Event H)) (o : Nat) :
    (evs.flatMap Event.handlerStarted).count o =
      (evs.flatMap (Event.workedOn o)).count .spawnHandler := by
  rw [List.count_flatMap, List.count_flatMap]
  congr 1
  refine List.map_congr_left fun e _ => ?_
  cases e with
  | worked o' op =>
      cases op with
      | spawnHandler =>
          by_cases ho : o' = o
          · simp [Event.handlerStarted, Event.workedOn, ho]
          · simp [Event.handlerStarted, Event.workedOn, ho]
      | _ =>
          by_cases ho : o' = o
          · simp [Event.handlerStarted, Event.workedOn, ho]
          · simp [Event.handlerStarted, Event.workedOn, ho]
  | _ => rfl

/-- Only a SYN_STREAM starts a handler. -/
theorem spawnHandler_not_mem {f : Frame H} (h : isRoutable f = true) :
    .spawnHandler ∉ workerOps f := by
  cases f with
  | synStream _ | settings _ | ping _ | goAway _ | windowUpdate _ => cases h
  | synReply sr =>
      simp only [workerOps, closeIf]
      split <;> simp
  | headers hf =>
      simp only [workerOps, closeIf]
      split <;> simp
  | data df =>
      simp only [workerOps, closeIf]
      split <;> simp
  | rstStream _ => simp [workerOps]

variable {guard : List (Event H) → State H → Action H → Prop} {evs : List (Event H)} {s : State H}

/-- A handler is started at most once for a stream. -/
theorem started_once (h : (connection H).Run guard evs s) (o : Nat) :
    (evs.flatMap Event.handlerStarted).count o ≤ 1 := by
  have hops := ops_eq_worked h o
  have hcount : (evs.flatMap (Event.workedOn o)).count .spawnHandler ≤
      ((evs.flatMap (Event.routedTo o)).flatMap workerOps).count .spawnHandler := by
    rw [routed_eq_forwarded h o, forwarded_eq_applied h o, List.flatMap_append,
      List.flatMap_append, hops, List.count_append, List.count_append, List.count_append]
    omega
  rw [count_handlerStarted]
  refine hcount.trans ?_
  cases hid : s.ids[o]? with
  | none =>
      rw [(routed_none h hid).1]
      exact Nat.zero_le 1
  | some k =>
      obtain ⟨f₀, hf₀, -⟩ := accepted_of_id h hid
      obtain ⟨hlog, hown⟩ := routed_log h hf₀
      have hrest :
          ((evs.flatMap (Event.foundFor o)).flatMap workerOps).count .spawnHandler = 0 := by
        rw [List.count_eq_zero]
        intro hmem
        obtain ⟨f, hf, hop⟩ := List.mem_flatMap.mp hmem
        exact spawnHandler_not_mem (hown f hf).1 hop
      rw [hlog, List.flatMap_cons, List.count_append, hrest]
      exact Nat.le_refl 1

/-- It is started at most once for an id. -/
theorem started_once_for_id (h : (connection H).Run guard evs s) (k : UInt32) :
    (evs.flatMap Event.handlerStarted).countP (fun o => s.ids[o]? = some k) ≤ 1 := by
  rcases List.eq_nil_or_concat
    ((evs.flatMap Event.handlerStarted).filter fun o => s.ids[o]? = some k) with
    hnil | ⟨_, o, hcons⟩
  · rw [List.countP_eq_length_filter, hnil]
    exact Nat.zero_le 1
  · have hmem : o ∈ (evs.flatMap Event.handlerStarted).filter fun o => s.ids[o]? = some k := by
      rw [hcons]
      simp
    have hid : s.ids[o]? = some k := of_decide_eq_true (List.mem_filter.mp hmem).2
    refine le_trans (List.countP_mono_left fun o' _ ho' => ?_) (started_once h o)
    exact beq_iff_eq.mpr ((registry_run h).unique (of_decide_eq_true ho') hid)

/-! ## Admission -/

/-- What is true of the SYN_STREAM frames of a run. -/
structure Admission (evs : List (Event H)) (s : State H) : Prop where
  /-- the accepted ids are odd -/
  odd : ∀ k ∈ evs.flatMap Event.acceptedId, k % 2 = 1
  /-- they increase -/
  increasing : (evs.flatMap Event.acceptedId).Pairwise (· < ·)
  /-- the keys of the map are odd and at most the counter, but for the one whose
  store is due -/
  keys : ∀ k ∈ s.streams, k % 2 = 1 ∧
    (k ≤ s.lastClientStreamId ∨ ∃ f o, s.readTask = .storeLast f o ∧ k = f.streamId)
  /-- every SYN_STREAM is accepted or rejected, once -/
  decided : evs.flatMap Event.synRead = evs.flatMap Event.decided ++ s.readTask.deciding
  /-- a rejection changes neither the map nor the counter -/
  rejected : ∀ a s' es f status, s.step a = some (s', es) → .rejected f status ∈ es →
    s'.streams = s.streams ∧ s'.lastClientStreamId = s.lastClientStreamId ∧
      s'.readTask = .respond (rstFor f status)
  /-- the map is changed by an acceptance or a removal only -/
  mapChanges : ∀ a s' es, s.step a = some (s', es) → s'.streams ≠ s.streams →
    (∃ o f, .accepted o f ∈ es) ∨ ∃ o found, .removed o found ∈ es
  /-- the counter is changed for an accepted SYN_STREAM only -/
  lastChanges : ∀ a s' es, s.step a = some (s', es) →
    s'.lastClientStreamId ≠ s.lastClientStreamId →
    ∃ o f, .accepted o f ∈ evs ∧ s'.lastClientStreamId = f.streamId
  /-- the handler is started at most once for an id -/
  startedOnce : ∀ k, (evs.flatMap Event.handlerStarted).countP (fun o => s.ids[o]? = some k) ≤ 1
  /-- the branch that sends under the lock is never taken -/
  notInUse : ∀ f, s.readTask ≠ .inUse f
  /-- a removal finds the stream whose RST_STREAM is applied, or nothing when that
  stream has been removed before -/
  removal : ∀ o found, .removed o found ∈ evs →
    (found = some o ∨ found = none) ∧ .removed o (some o) ∈ evs

theorem keys_bounded {s : State H} (h : Registry s) {k : UInt32} (hk : k ∈ s.streams) :
    k % 2 = 1 ∧
      (k ≤ s.lastClientStreamId ∨ ∃ f o, s.readTask = .storeLast f o ∧ k = f.streamId) := by
  have hmem := h.mem_ids hk
  refine ⟨h.odd k hmem, ?_⟩
  have hbound := h.bounded k hmem
  cases hpc : s.readTask with
  | storeLast f o =>
      rw [hpc] at hbound
      rcases hbound with hle | heq
      · exact .inl hle
      · exact .inr ⟨f, o, rfl, heq⟩
  | _ =>
      rw [hpc] at hbound
      exact .inl hbound

/-- **Admission.**  Whatever the peer sends and however the tasks are interleaved,
the SYN_STREAM frames are admitted in this way. -/
theorem synStreams_admitted (h : (connection H).Reached evs s) : Admission evs s := by
  have hreg := registry_run h
  refine
    { odd := ?_, increasing := ?_, keys := fun k hk => keys_bounded hreg hk
      decided := decided_once h
      rejected := fun a s' es f status hs he => rejected_step hreg hs he
      mapChanges := ?_, lastChanges := ?_
      startedOnce := started_once_for_id h
      notInUse := ?_
      removal := fun o found he => removed_itself h he }
  · rw [accepted_ids h]
    exact hreg.odd
  · rw [accepted_ids h]
    exact hreg.increasing
  · intro a s' es hs hne
    cases map_step hs with
    | same streams ids silent => exact absurd streams hne
    | insert f fresh streams ids events =>
        exact .inl ⟨_, f, by rw [events]; exact List.mem_singleton.mpr rfl⟩
    | erase o k id streams ids events =>
        refine .inr ⟨o, s.streams.lookup k, ?_⟩
        rw [events]
        exact List.mem_cons_of_mem _ (List.mem_singleton.mpr rfl)
  · intro a s' es hs hne
    rcases last_step hs with hsame | ⟨f, o, hpc, hlast⟩
    · exact absurd hsame hne
    · exact ⟨o, f, accepted_of_storeLast h hpc, hlast⟩
  · intro f hpc
    have htask := hreg.task
    rw [hpc] at htask
    exact htask

/-- A run with a rejected id between two accepted ones, where the first stream is
reset and its removal still to come. -/
theorem synStreams_admitted_twoStreams : ∃ evs s, (connection Unit).Reached evs s ∧
    evs.flatMap Event.acceptedId = [1, 3] ∧ s.streams.keys = [3, 1] ∧ Admission evs s := by
  obtain ⟨evs, s, h, hcheck⟩ := Machine.exists_run_of_exec (connection Unit) Machine.free
    (registers (plainSyn 1 0) ++ [Action.read (.synStream (plainSyn 2 0)), .readTask 0] ++
      routes (.rstStream { streamId := 1, status := .cancel }) ++ registers (plainSyn 3 0))
    (fun evs s => decide (evs.flatMap Event.acceptedId = [1, 3] ∧ s.streams.keys = [3, 1]))
    (by decide +kernel)
  obtain ⟨hids, hkeys⟩ := of_decide_eq_true hcheck
  exact ⟨evs, s, h, hids, hkeys, synStreams_admitted h⟩

/-- A second RST_STREAM is looked up before the first is applied, and its removal finds
nothing. -/
theorem removes_nothing : ¬ ∀ evs (s : State Unit), (connection Unit).Reached evs s →
    Admission evs s ∧ ∀ o found, .removed o found ∈ evs → found = some o := by
  intro hall
  obtain ⟨evs, s, h, hcheck⟩ := Machine.exists_run_of_exec (connection Unit) Machine.free
    (registers (plainSyn 1 0) ++ applies (.synStream (plainSyn 1 0)) ++
      routes (.rstStream { streamId := 1, status := .cancel }) ++
      routes (.rstStream { streamId := 1, status := .cancel }) ++
      applies (.rstStream { streamId := 1, status := .cancel }) ++
      applies (.rstStream { streamId := 1, status := .cancel }))
    (fun evs _ => decide (.removed 0 none ∈ evs))
    (by decide +kernel)
  cases (hall evs s h).2 0 none (of_decide_eq_true hcheck)

end SpdyStream.Session
