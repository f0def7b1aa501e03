/-
  Session/Registry.lean --- which streams there are.

  `Registry` is the invariant that ties the map of streams to the counter
  `last_client_stream_id` and to the place of the read task: ids are odd and
  increase, the map leads from an id to the one stream made for it, and whatever
  the read task still has to decide is above the counter.

  The counter lags behind the map between the insert and the store of one
  SYN_STREAM; `Bounds` says how an id compares to it in the meantime.
-/
import SpdyStream.Session.Steps

set_option autoImplicit false

namespace SpdyStream.Session

open SpdyStream.Foundation
open SpdyStream.Framing

variable {H : Type}

/-! ## The invariant -/

/-- An id is not above the counter, or it is about to be stored in it. -/
def ReadTask.Bounds (last k : UInt32) : ReadTask H → Prop
  | .storeLast f _ => k ≤ last ∨ k = f.streamId
  | _ => k ≤ last

/-- What holds where the read task is. -/
def ReadTask.Sound (last : UInt32) (ids : List UInt32) : ReadTask H → Prop
  | .loadLast f => f.streamId % 2 = 1
  | .loadGoneAway f | .register f => f.streamId % 2 = 1 ∧ last < f.streamId
  | .inUse _ => False
  | .storeLast f o => last < f.streamId ∧ ids[o]? = some f.streamId
  | .lookup f => isRoutable f = true
  | .forward o f => ids[o]? = some f.target
  | _ => True

/-- What registration keeps true. -/
structure Registry (s : State H) : Prop where
  odd : ∀ k ∈ s.ids, k % 2 = 1
  increasing : s.ids.Pairwise (· < ·)
  bounded : ∀ k ∈ s.ids, s.readTask.Bounds s.lastClientStreamId k
  owner : ∀ k o, s.streams.lookup k = some o → s.ids[o]? = some k
  task : s.readTask.Sound s.lastClientStreamId s.ids

theorem ReadTask.bounds_of_holdsFrame {t : ReadTask H} (h : t.holdsFrame = false)
    (last k : UInt32) : t.Bounds last k ↔ k ≤ last := by
  cases t with
  | storeLast f o => cases h
  | _ => exact Iff.rfl

theorem ReadTask.sound_of_isPlain {t : ReadTask H} (h : t.isPlain = true) (last : UInt32)
    (ids : List UInt32) : t.Sound last ids := by
  cases t with
  | loadLast _ | loadGoneAway _ | register _ | inUse _ | storeLast _ _ | lookup _ | forward _ _ =>
      cases h
  | _ => trivial

/-- The invariant looks at four things only. -/
theorem Registry.congr {s s' : State H} (h : Registry s) (hids : s'.ids = s.ids)
    (hstreams : s'.streams = s.streams) (hlast : s'.lastClientStreamId = s.lastClientStreamId)
    (htask : s'.readTask = s.readTask) : Registry s' := by
  constructor
  · rw [hids]
    exact h.odd
  · rw [hids]
    exact h.increasing
  · rw [hids, hlast, htask]
    exact h.bounded
  · rw [hids, hstreams]
    exact h.owner
  · rw [hids, hlast, htask]
    exact h.task

/-- The read task may go anywhere that is sound and bounds the ids. -/
theorem Registry.goto {s s' : State H} (h : Registry s) (hids : s'.ids = s.ids)
    (hstreams : s'.streams = s.streams)
    (hbounds : ∀ k, s.readTask.Bounds s.lastClientStreamId k →
      s'.readTask.Bounds s'.lastClientStreamId k)
    (htask : s'.readTask.Sound s'.lastClientStreamId s'.ids) : Registry s' := by
  constructor
  · rw [hids]
    exact h.odd
  · rw [hids]
    exact h.increasing
  · rw [hids]
    exact fun k hk => hbounds k (h.bounded k hk)
  · rw [hids, hstreams]
    exact h.owner
  · exact htask

theorem registry_initial : Registry (State.initial H) := by
  constructor
  · simp [State.ids, State.initial]
  · simp [State.ids, State.initial]
  · simp [State.ids, State.initial]
  · intro k o h
    cases h
  · trivial

/-- The key of the map, as a key of the ids. -/
theorem Registry.mem_ids {s : State H} (h : Registry s) {k : UInt32} (hk : k ∈ s.streams) :
    k ∈ s.ids := by
  obtain ⟨o, ho⟩ := Option.isSome_iff_exists.mp (AList.lookup_isSome.mpr hk)
  exact List.mem_of_getElem? (h.owner k o ho)

/-- A SYN_STREAM that is about to be registered has a new id. -/
theorem Registry.fresh {s : State H} (h : Registry s) {f : SynStreamFrame H}
    (hpc : s.readTask = .register f) : ∀ k ∈ s.ids, k < f.streamId := by
  intro k hk
  have hle := h.bounded k hk
  have htask := h.task
  rw [hpc] at hle htask
  exact UInt32.lt_of_le_of_lt hle htask.2

theorem Registry.not_taken {s : State H} (h : Registry s) {f : SynStreamFrame H}
    (hpc : s.readTask = .register f) : f.streamId ∉ s.streams := by
  intro hmem
  exact UInt32.lt_irrefl _ (h.fresh hpc f.streamId (h.mem_ids hmem))

/-! ## One step -/

theorem Registry.read {s : State H} (h : Registry s) {f : Frame H} (hpc : s.readTask = .reading) :
    Registry { s with
      readTask := dispatch f
      initialWindowSize := windowAfter s.initialWindowSize f } := by
  rcases dispatch_cases f with ⟨hplain, -⟩ | ⟨g, rfl, hodd, hnext⟩ | ⟨hroutable, hnext⟩
  · refine h.goto rfl rfl (fun k hk => ?_) (ReadTask.sound_of_isPlain hplain _ _)
    rw [hpc] at hk
    exact (ReadTask.bounds_of_holdsFrame (ReadTask.holdsFrame_of_isPlain hplain) _ _).mpr hk
  · rw [hnext]
    refine h.goto rfl rfl (fun k hk => ?_) hodd
    rw [hpc] at hk
    exact hk
  · rw [hnext]
    refine h.goto rfl rfl (fun k hk => ?_) hroutable
    rw [hpc] at hk
    exact hk

theorem Registry.accept {s : State H} (h : Registry s) {f : SynStreamFrame H}
    (hpc : s.readTask = .register f) :
    Registry { s with
      objs := s.objs ++ [Stream.new f.streamId f.headers f.priority]
      streams := s.streams.insert f.streamId s.objs.length
      readTask := .storeLast f s.objs.length } := by
  have hfresh := h.fresh hpc
  have htask := h.task
  rw [hpc] at htask
  have hids : (s.objs ++ [Stream.new f.streamId f.headers f.priority]).map Stream.streamId =
      s.ids ++ [f.streamId] := List.map_append
  have hlength : s.ids.length = s.objs.length := List.length_map _
  have hnew : (s.ids ++ [f.streamId])[s.objs.length]? = some f.streamId := by
    rw [← hlength]
    exact List.getElem?_concat_length
  constructor
  · intro k hk
    rw [State.ids, hids, List.mem_append, List.mem_singleton] at hk
    rcases hk with hk | rfl
    · exact h.odd k hk
    · exact htask.1
  · rw [State.ids, hids, List.pairwise_append]
    refine ⟨h.increasing, List.pairwise_singleton _ _, fun k hk k' hk' => ?_⟩
    rw [List.mem_singleton.mp hk']
    exact hfresh k hk
  · intro k hk
    rw [State.ids, hids, List.mem_append, List.mem_singleton] at hk
    rcases hk with hk | rfl
    · have hbound := h.bounded k hk
      rw [hpc] at hbound
      exact .inl hbound
    · exact .inr rfl
  · intro k o hlookup
    rw [State.ids, hids]
    by_cases hk : k = f.streamId
    · subst hk
      rw [AList.lookup_insert] at hlookup
      rw [← Option.some.inj hlookup]
      exact hnew
    · rw [AList.lookup_insert_ne hk] at hlookup
      have hold := h.owner k o hlookup
      rw [List.getElem?_append_left (List.getElem?_eq_some_iff.mp hold).1]
      exact hold
  · refine ⟨htask.2, ?_⟩
    rw [State.ids, hids]
    exact hnew

theorem Registry.remove {s : State H} (h : Registry s) (k : UInt32) :
    Registry { s with streams := s.streams.erase k } := by
  refine ⟨h.odd, h.increasing, h.bounded, fun k' o hlookup => ?_, h.task⟩
  by_cases hk : k' = k
  · subst hk
    rw [AList.lookup_erase] at hlookup
    cases hlookup
  · rw [AList.lookup_erase_ne hk] at hlookup
    exact h.owner k' o hlookup

theorem Registry.move {s s' : State H} {es : List (Event H)} (h : Registry s)
    (hmove : ReadMove s s' es) : Registry s' := by
  have htask := h.task
  cases hmove with
  | plain still before next loop mute =>
      refine h.goto still.ids still.streams (fun k hk => ?_) (ReadTask.sound_of_isPlain next _ _)
      rw [still.last]
      exact (ReadTask.bounds_of_holdsFrame (ReadTask.holdsFrame_of_isPlain next) _ _).mpr
        ((ReadTask.bounds_of_holdsFrame before _ _).mp hk)
  | answer f c es pc channel events =>
      refine h.goto rfl rfl (fun k hk => ?_) trivial
      exact (ReadTask.bounds_of_holdsFrame (ReadTask.holdsFrame_of_answer pc) _ _).mp hk
  | stale f pc le | refused f pc gone =>
      refine h.goto rfl rfl (fun k hk => ?_) trivial
      rw [pc] at hk
      exact hk
  | checked f pc lt =>
      rw [pc] at htask
      refine h.goto rfl rfl (fun k hk => ?_) ⟨htask, lt⟩
      rw [pc] at hk
      exact hk
  | passed f pc here =>
      rw [pc] at htask
      refine h.goto rfl rfl (fun k hk => ?_) htask
      rw [pc] at hk
      exact hk
  | taken f pc mem => exact absurd mem (h.not_taken pc)
  | accept f pc notMem => exact h.accept pc
  | publish f o pc =>
      rw [pc] at htask
      refine h.goto rfl rfl (fun k hk => ?_) htask.2
      rw [pc] at hk
      rcases hk with hle | rfl
      · exact UInt32.le_trans hle (UInt32.le_of_lt htask.1)
      · exact UInt32.le_refl _
  | found f o pc hit =>
      refine h.goto rfl rfl (fun k hk => ?_) (h.owner _ o hit)
      rw [pc] at hk
      exact hk
  | missed f pc miss =>
      have hplain := missing_isPlain f
      refine h.goto rfl rfl (fun k hk => ?_) (ReadTask.sound_of_isPlain hplain _ _)
      rw [pc] at hk
      exact (ReadTask.bounds_of_holdsFrame (ReadTask.holdsFrame_of_isPlain hplain) _ _).mpr hk
  | deliver o f pc worker =>
      refine h.goto rfl rfl (fun k hk => ?_) trivial
      rw [pc] at hk
      exact hk

theorem Registry.worker {s s' : State H} {i : Fin nWorkers} {es : List (Event H)}
    (h : Registry s) (hmove : WorkerMove s i s' es) : Registry s' := by
  have hids := hmove.ids
  cases hmove with
  | remove rest st todo obj unlocked => exact (h.remove st.streamId).congr rfl rfl rfl rfl
  | _ => exact h.congr hids rfl rfl rfl

theorem Registry.step {s s' : State H} {a : Action H} {es : List (Event H)} (h : Registry s)
    (hs : s.step a = some (s', es)) : Registry s' := by
  cases step_kind hs with
  | aside ha => exact h.congr ha.ids ha.streams ha.last ha.readTask
  | read f pc state events =>
      rw [state]
      exact h.read pc
  | move hmove => exact h.move hmove
  | worker i hmove => exact h.worker hmove

/-! ## Runs -/

/-- The registry is sound wherever a run ends. -/
theorem registry_run {guard : List (Event H) → State H → Action H → Prop} {evs : List (Event H)}
    {s : State H} (h : (connection H).Run guard evs s) : Registry s :=
  h.invariant (I := fun _ s => Registry s) registry_initial fun _ _ _ _ _ _ _ hs hI => hI.step hs

theorem Registry.unique {s : State H} (h : Registry s) {o o' : Nat} {k : UInt32}
    (ho : s.ids[o]? = some k) (ho' : s.ids[o']? = some k) : o = o' := by
  have hnodup : s.ids.Nodup := h.increasing.imp fun hlt => UInt32.ne_of_lt hlt
  obtain ⟨hi, hget⟩ := List.getElem?_eq_some_iff.mp ho
  obtain ⟨hi', hget'⟩ := List.getElem?_eq_some_iff.mp ho'
  exact (hnodup.getElem_inj_iff).mp (hget.trans hget'.symm)

/-! ## What was accepted -/

/-- The ids that were accepted. -/
def Event.acceptedId : Event H → List UInt32
  | .accepted _ f => [f.streamId]
  | _ => []

theorem Event.acceptedId_quiet {e : Event H} (h : e.isQuiet = true) : e.acceptedId = [] := by
  cases e with
  | accepted _ _ => cases h
  | _ => rfl

/-- Streams are made by accepted SYN_STREAMs only. -/
theorem ids_step {s s' : State H} {a : Action H} {es : List (Event H)}
    (hs : s.step a = some (s', es)) : s'.ids = s.ids ++ es.flatMap Event.acceptedId := by
  cases step_kind hs with
  | aside ha =>
      rw [ha.ids, flatMap_quiet (fun _ => Event.acceptedId_quiet) ha.quiet, List.append_nil]
  | read f pc state events =>
      have hnone := flatMap_rejectedAtOnce Event.acceptedId (fun _ _ => rfl) f
      rw [state, events, List.flatMap_cons, hnone]
      exact (List.append_nil _).symm
  | move hmove =>
      cases hmove with
      | plain still before next loop mute => exact still.ids.trans (List.append_nil _).symm
      | answer f c es pc channel events =>
          rw [flatMap_quiet (fun _ => Event.acceptedId_quiet) (answer_quiet events)]
          exact (List.append_nil _).symm
      | accept f pc notMem => exact List.map_append
      | _ => exact (List.append_nil _).symm
  | worker i hmove =>
      rw [hmove.ids]
      cases hmove with
      | _ => exact (List.append_nil _).symm

variable {guard : List (Event H) → State H → Action H → Prop} {evs : List (Event H)} {s : State H}

/-- The ids of the streams are the accepted ids, in their order. -/
theorem accepted_ids (h : (connection H).Run guard evs s) :
    evs.flatMap Event.acceptedId = s.ids := by
  refine h.invariant (I := fun evs s => evs.flatMap Event.acceptedId = s.ids) rfl ?_
  intro evs es s s' a _ _ hs ih
  rw [List.flatMap_append, ih, ids_step hs]

/-- A stream of an earlier state of the run is a stream of a later one. -/
theorem ids_later {evs₀ rest : List (Event H)} {s₀ : State H}
    (h₀ : (connection H).Run guard evs₀ s₀) (h : (connection H).Run guard evs s)
    (hevs : evs = evs₀ ++ rest) {o : Nat} {k : UInt32} (hk : s₀.ids[o]? = some k) :
    s.ids[o]? = some k := by
  rw [← accepted_ids h₀] at hk
  rw [← accepted_ids h, hevs, List.flatMap_append,
    List.getElem?_append_left (List.getElem?_eq_some_iff.mp hk).1]
  exact hk

/-- A step that accepts a SYN_STREAM makes the stream for it. -/
theorem accepted_step {s s' : State H} {a : Action H} {es : List (Event H)} {o : Nat}
    {f : SynStreamFrame H} (hs : s.step a = some (s', es)) (he : .accepted o f ∈ es) :
    es = [.accepted o f] ∧ s.ids[o]? = none ∧ s'.ids[o]? = some f.streamId := by
  cases step_kind hs with
  | aside ha => cases ha.quiet _ he
  | read g pc state events =>
      rw [events] at he
      rcases List.mem_cons.mp he with he | he
      · cases he
      · obtain ⟨_, -, -, heq⟩ := mem_rejectedAtOnce he
        cases heq
  | move hmove =>
      cases hmove with
      | plain still before next loop mute => cases he
      | answer f c es pc channel events => cases answer_quiet events _ he
      | accept g pc notMem =>
          cases List.mem_singleton.mp he
          have hids := ids_step hs
          have hlength : s.ids.length = s.objs.length := List.length_map _
          rw [hids, ← hlength]
          exact ⟨rfl, List.getElem?_eq_none (Nat.le_refl _), List.getElem?_concat_length⟩
      | _ => simp at he
  | worker i hmove =>
      cases hmove with
      | _ => simp at he

/-- The id of a stream stays what it is. -/
theorem ids_grow {s s' : State H} {a : Action H} {es : List (Event H)} {o : Nat} {k : UInt32}
    (hs : s.step a = some (s', es)) (hk : s.ids[o]? = some k) : s'.ids[o]? = some k := by
  rw [ids_step hs, List.getElem?_append_left (List.getElem?_eq_some_iff.mp hk).1]
  exact hk

/-- The stream of an accepted SYN_STREAM has its id. -/
theorem accepted_id (h : (connection H).Run guard evs s) {o : Nat} {f : SynStreamFrame H}
    (he : .accepted o f ∈ evs) : s.ids[o]? = some f.streamId := by
  refine h.invariant (I := fun evs s => .accepted o f ∈ evs → s.ids[o]? = some f.streamId) ?_ ?_ he
  · intro he
    cases he
  · intro evs es s s' a _ _ hs ih he
    rcases List.mem_append.mp he with he | he
    · exact ids_grow hs (ih he)
    · exact (accepted_step hs he).2.2

/-- Between insert and store the SYN_STREAM has been accepted. -/
theorem accepted_of_storeLast (h : (connection H).Run guard evs s) {o : Nat}
    {f : SynStreamFrame H} (hpc : s.readTask = .storeLast f o) : .accepted o f ∈ evs := by
  refine h.invariant (I := fun evs s => s.readTask = .storeLast f o → .accepted o f ∈ evs) ?_ ?_ hpc
  · intro hpc
    cases hpc
  · intro evs es s s' a _ _ hs ih hpc
    cases step_kind hs with
    | aside ha => exact List.mem_append_left _ (ih (ha.readTask.symm.trans hpc))
    | read g pc state events =>
        rw [state] at hpc
        have hpc : dispatch g = .storeLast f o := hpc
        rcases dispatch_cases g with ⟨hplain, -⟩ | ⟨g', rfl, -, hnext⟩ | ⟨-, hnext⟩
        · rw [hpc] at hplain
          cases hplain
        · cases hnext.symm.trans hpc
        · cases hnext.symm.trans hpc
    | move hmove =>
        cases hmove with
        | plain still before next loop mute =>
            rw [hpc] at next
            cases next
        | answer f c es pc channel events => cases hpc
        | accept g pc notMem =>
            cases hpc
            exact List.mem_append_right _ (List.mem_singleton.mpr rfl)
        | missed g pc miss =>
            have hpc : missing g = .storeLast f o := hpc
            have hplain := missing_isPlain g
            rw [hpc] at hplain
            cases hplain
        | _ => cases hpc
    | worker i hmove =>
        cases hmove with
        | _ => exact List.mem_append_left _ (ih hpc)

/-! ## What was decided -/

/-- The SYN_STREAM frames that were read. -/
def Event.synRead : Event H → List (SynStreamFrame H)
  | .read (.synStream f) => [f]
  | _ => []

/-- The SYN_STREAM frames that were accepted or rejected. -/
def Event.decided : Event H → List (SynStreamFrame H)
  | .accepted _ f | .rejected f _ => [f]
  | _ => []

/-- The SYN_STREAM that the read task has not decided yet. -/
def ReadTask.deciding : ReadTask H → List (SynStreamFrame H)
  | .loadLast f | .loadGoneAway f | .register f => [f]
  | _ => []

theorem Event.decided_quiet {e : Event H} (h : e.isQuiet = true) :
    e.synRead = [] ∧ e.decided = [] := by
  cases e with
  | read _ | accepted _ _ | rejected _ _ => cases h
  | _ => exact ⟨rfl, rfl⟩

theorem ReadTask.deciding_of_holdsFrame {t : ReadTask H} (h : t.holdsFrame = false) :
    t.deciding = [] := by
  cases t with
  | loadLast _ | loadGoneAway _ | register _ => cases h
  | _ => rfl

theorem decided_read (f : Frame H) :
    Event.synRead (.read f) =
      (rejectedAtOnce f).flatMap Event.decided ++ (dispatch f).deciding := by
  cases f with
  | synStream g =>
      simp only [rejectedAtOnce, dispatch]
      split
      · rfl
      · rfl
  | ping p =>
      simp only [dispatch]
      split
      · rfl
      · rfl
  | _ => rfl

/-- Every SYN_STREAM that is read is decided once, in the order of reading. -/
theorem decided_once (h : (connection H).Run guard evs s) :
    evs.flatMap Event.synRead = evs.flatMap Event.decided ++ s.readTask.deciding := by
  refine h.conserved (fun s : State H => s.readTask.deciding) rfl ?_
  intro evs es s s' a _ _ hs
  cases step_kind hs with
  | aside ha =>
      rw [flatMap_quiet (fun _ he => (Event.decided_quiet he).1) ha.quiet,
        flatMap_quiet (fun _ he => (Event.decided_quiet he).2) ha.quiet, ha.readTask]
      exact List.append_nil _
  | read f pc state events =>
      have hnone := flatMap_rejectedAtOnce Event.synRead (fun _ _ => rfl) f
      rw [state, events, pc, List.flatMap_cons, List.flatMap_cons, hnone, List.append_nil]
      exact decided_read f
  | move hmove =>
      cases hmove with
      | plain still before next loop mute =>
          rw [ReadTask.deciding_of_holdsFrame before,
            ReadTask.deciding_of_holdsFrame (ReadTask.holdsFrame_of_isPlain next)]
          rfl
      | answer f c es pc channel events =>
          rw [flatMap_quiet (fun _ he => (Event.decided_quiet he).1) (answer_quiet events),
            flatMap_quiet (fun _ he => (Event.decided_quiet he).2) (answer_quiet events),
            ReadTask.deciding_of_holdsFrame (ReadTask.holdsFrame_of_answer pc)]
          rfl
      | missed f pc miss =>
          rw [pc]
          exact (ReadTask.deciding_of_holdsFrame
            (ReadTask.holdsFrame_of_isPlain (missing_isPlain f))).symm
      | stale f pc _ | checked f pc _ | refused f pc _ | passed f pc _ | taken f pc _
      | accept f pc _ | publish f _ pc | found f _ pc _ | deliver _ f pc _ =>
          rw [pc]
          rfl
  | worker i hmove =>
      cases hmove with
      | _ => exact List.append_nil _

/-! ## What was removed -/

/-- What a step does to the map of streams. -/
inductive MapMove (s s' : State H) (es : List (Event H)) : Prop where
  | same (streams : s'.streams = s.streams) (ids : s'.ids = s.ids)
      (silent : ∀ o found, Event.removed o found ∉ es)
  | insert (f : SynStreamFrame H) (fresh : f.streamId ∉ s.streams)
      (streams : s'.streams = s.streams.insert f.streamId s.objs.length)
      (ids : s'.ids = s.ids ++ [f.streamId]) (events : es = [.accepted s.objs.length f])
  | erase (o : Nat) (k : UInt32) (id : s.ids[o]? = some k)
      (streams : s'.streams = s.streams.erase k)
      (ids : s'.ids = s.ids)
      (events : es = [.worked o .removeStream, .removed o (s.streams.lookup k)])

theorem map_step {s s' : State H} {a : Action H} {es : List (Event H)}
    (hs : s.step a = some (s', es)) : MapMove s s' es := by
  cases step_kind hs with
  | aside ha => exact .same ha.streams ha.ids fun o found he => by cases ha.quiet _ he
  | read f pc state events =>
      refine .same (by rw [state]) (by rw [state]; rfl) fun o found he => ?_
      rw [events] at he
      rcases List.mem_cons.mp he with he | he
      · cases he
      · obtain ⟨_, -, -, heq⟩ := mem_rejectedAtOnce he
        cases heq
  | move hmove =>
      cases hmove with
      | plain still before next loop mute => exact .same still.streams still.ids (by simp)
      | answer f c es pc channel events =>
          exact .same rfl rfl fun o found he => by cases answer_quiet events _ he
      | accept f pc notMem => exact .insert f notMem rfl List.map_append rfl
      | _ => exact .same rfl rfl (by simp)
  | worker i hmove =>
      have hids := hmove.ids
      cases hmove with
      | remove rest st todo obj unlocked =>
          refine .erase (s.workers i).stream st.streamId ?_ rfl rfl rfl
          rw [State.ids, List.getElem?_map, obj]
          rfl
      | _ => exact .same rfl hids (by simp)

/-- A stream is in the map until a worker removes it. -/
theorem present_or_removed (h : (connection H).Run guard evs s) {o : Nat} {k : UInt32}
    (hk : s.ids[o]? = some k) : s.streams.lookup k = some o ∨ .removed o (some o) ∈ evs := by
  refine h.invariant (I := fun evs s => ∀ {o : Nat} {k : UInt32}, s.ids[o]? = some k →
    s.streams.lookup k = some o ∨ .removed o (some o) ∈ evs) ?_ ?_ hk
  · intro o k hk
    cases hk
  · intro evs es s s' a hrun _ hs ih o k hk
    cases map_step hs with
    | same streams ids silent =>
        rw [ids] at hk
        rw [streams]
        exact (ih hk).imp_right (List.mem_append_left es)
    | insert f fresh streams ids events =>
        have hlength : s.ids.length = s.objs.length := List.length_map _
        rw [ids] at hk
        rcases Nat.lt_or_ge o s.ids.length with hold | hnew
        · rw [List.getElem?_append_left hold] at hk
          refine (ih hk).imp (fun hlookup => ?_) (List.mem_append_left es)
          have hne : k ≠ f.streamId := by
            rintro rfl
            exact fresh (AList.lookup_isSome.mp (by rw [hlookup]; rfl))
          rw [streams, AList.lookup_insert_ne hne]
          exact hlookup
        · left
          have ho : o = s.ids.length := by
            have hlt := (List.getElem?_eq_some_iff.mp hk).1
            simp only [List.length_append, List.length_singleton] at hlt
            omega
          rw [ho, List.getElem?_concat_length] at hk
          rw [streams, ← Option.some.inj hk, AList.lookup_insert, ho, hlength]
    | erase o' k' id streams ids events =>
        rw [ids] at hk
        rcases ih hk with hlookup | hgone
        · by_cases hsame : k = k'
          · subst hsame
            right
            have ho := (registry_run hrun).unique hk id
            rw [events, hlookup, ← ho]
            exact List.mem_append_right _ (List.mem_cons_of_mem _ (List.mem_singleton.mpr rfl))
          · left
            rw [streams, AList.lookup_erase_ne hsame]
            exact hlookup
        · exact .inr (List.mem_append_left es hgone)

/-- What a worker removes is the stream whose RST_STREAM it applies, unless that
has been removed already. -/
theorem removed_itself (h : (connection H).Run guard evs s) {o : Nat} {found : Option Nat}
    (he : .removed o found ∈ evs) :
    (found = some o ∨ found = none) ∧ .removed o (some o) ∈ evs := by
  refine h.invariant (I := fun evs _ => .removed o found ∈ evs →
    (found = some o ∨ found = none) ∧ .removed o (some o) ∈ evs) ?_ ?_ he
  · intro he
    cases he
  · intro evs es s s' a hrun hguard hs ih he
    rcases List.mem_append.mp he with he | he
    · exact (ih he).imp_right (List.mem_append_left es)
    · cases map_step hs with
      | same streams ids silent => exact absurd he (silent o found)
      | insert f fresh streams ids events =>
          rw [events] at he
          cases List.mem_singleton.mp he
      | erase o' k id streams ids events =>
          rw [events] at he
          rcases List.mem_cons.mp he with he | he
          · cases he
          cases List.mem_singleton.mp he
          rcases present_or_removed hrun id with hlookup | hgone
          · rw [hlookup] at events ⊢
            have hin : .removed o (some o) ∈ es := by
              rw [events]
              exact List.mem_cons_of_mem _ (List.mem_singleton.mpr rfl)
            exact ⟨.inl rfl, List.mem_append_right _ hin⟩
          · refine ⟨?_, List.mem_append_left es hgone⟩
            cases hfound : s.streams.lookup k with
            | none => exact .inr rfl
            | some o' =>
                have howner := (registry_run hrun).owner k o' hfound
                exact .inl (congrArg some ((registry_run hrun).unique howner id))

/-- Every stream was made for an accepted SYN_STREAM. -/
theorem accepted_of_id (h : (connection H).Run guard evs s) {o : Nat} {k : UInt32}
    (hk : s.ids[o]? = some k) : ∃ f, .accepted o f ∈ evs ∧ f.streamId = k := by
  refine h.invariant (I := fun evs s => ∀ {o : Nat} {k : UInt32}, s.ids[o]? = some k →
    ∃ f, .accepted o f ∈ evs ∧ f.streamId = k) ?_ ?_ hk
  · intro o k hk
    cases hk
  · intro evs es s s' a _ _ hs ih o k hk
    have hold : s.ids[o]? = some k → ∃ f, .accepted o f ∈ evs ++ es ∧ f.streamId = k := fun hk => by
      obtain ⟨f, hf, hid⟩ := ih hk
      exact ⟨f, List.mem_append_left es hf, hid⟩
    cases map_step hs with
    | same streams ids silent | erase o' k' id streams ids events =>
        rw [ids] at hk
        exact hold hk
    | insert f fresh streams ids events =>
        rw [ids] at hk
        rcases Nat.lt_or_ge o s.ids.length with hlt | hge
        · rw [List.getElem?_append_left hlt] at hk
          exact hold hk
        · have ho : o = s.ids.length := by
            have hlt := (List.getElem?_eq_some_iff.mp hk).1
            simp only [List.length_append, List.length_singleton] at hlt
            omega
          subst ho
          rw [List.getElem?_concat_length] at hk
          have hlength : s.ids.length = s.objs.length := List.length_map _
          refine ⟨f, List.mem_append_right _ ?_, Option.some.inj hk⟩
          rw [events, hlength]
          exact List.mem_singleton.mpr rfl

end SpdyStream.Session
