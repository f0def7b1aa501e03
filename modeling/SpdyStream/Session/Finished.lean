/-
  Session/Finished.lean --- streams that have ended, and the map of streams.

  A stream leaves the map when its worker applies an RST_STREAM of the peer, and
  in no other way: not when both sides have sent FIN, and not when the server
  resets it.  So the map holds the active streams only if the peer resets every
  stream that has ended.
-/
import SpdyStream.Session.OneStream
import SpdyStream.Session.Reset

set_option autoImplicit false

namespace SpdyStream.Session

open SpdyStream.Foundation
open SpdyStream.Framing

variable {H : Type}

/-! ## Ended streams -/

/-- `stream_count`. -/
def State.streamCount (s : State H) : Nat := s.streams.keys.length

/-- Both sides of stream `o` have ended, or it was reset by either side. -/
def State.ended (evs : List (Event H)) (o : Nat) (s : State H) : Bool :=
  match s.ids[o]? with
  | none => false
  | some k => (evs.flatMap (Event.sentOn k)).any carriesFin && s.isRemoteClosed o ||
      evs.any (Event.resets o k)

/-- A call is over. -/
def CallPc.isReturned : CallPc H → Bool
  | .returned _ => true
  | _ => false

/-- The worker queues are empty, and no operation on a stream is in progress. -/
structure Quiescent (s : State H) : Prop where
  queues : ∀ i, (s.workers i).queue = []
  idle : ∀ i, (s.workers i).todo = []
  calls : ∀ c ∈ s.calls, c.pc.isReturned = true

/-- The map holds the active streams and no others. -/
structure OnlyActive (evs : List (Event H)) (s : State H) : Prop where
  map : ∀ k o, s.streams.lookup k = some o → s.ended evs o = false
  count : s.streamCount = (List.range s.objs.length).countP fun o => !s.ended evs o
  /-- when all streams have ended, the drain of `close` ends -/
  drain : (∀ o < s.objs.length, s.ended evs o = true) → s.streamsLocked = false →
    ∀ j, s.closes[j]? = some .drain →
      s.step (.closeStep j) = some ({ s with closes := s.closes.set j .returned }, [])

variable {guard : List (Event H) → State H → Action H → Prop} {evs : List (Event H)} {s : State H}

theorem ended_of_id {o : Nat} (h : s.ended evs o = true) : ∃ k, s.ids[o]? = some k := by
  unfold State.ended at h
  split at h
  · cases h
  · rename_i k hk
    exact ⟨k, hk⟩

/-! ## Removal -/

/-- The removal of a stream is the end of an RST_STREAM of the peer. -/
theorem removed_step (hrun : (connection H).Run guard evs s) {s' : State H} {a : Action H}
    {es : List (Event H)} (hs : s.step a = some (s', es)) (o : Nat) :
    .worked o .removeStream ∈ es ↔ ∃ found, .removed o found ∈ es := by
  cases map_step hs with
  | insert f fresh streams ids events => simp [events]
  | erase o' k id streams ids events =>
      rw [events]
      simp
  | same streams ids silent =>
      refine iff_of_false (fun hmem => ?_) (not_exists.mpr (silent o))
      cases stream_step hrun hs o with
      | work i op rest st action stream todo obj now calls events =>
          rw [events] at hmem silent
          rcases List.mem_cons.mp hmem with heq | hmem
          · cases heq
            exact absurd (List.mem_cons_of_mem _ (List.mem_singleton.mpr rfl)) (silent o _)
          · cases op with
            | pushData _ | removeStream => cases List.mem_singleton.mp hmem
            | _ => cases hmem
      | call j alt pc st out action get obj outcome now calls events =>
          rw [events] at hmem
          obtain ⟨eff, -, heq⟩ := List.mem_map.mp hmem
          cases eff with
          | enqueued f => cases heq
          | delivered d => cases heq
      | other same calls unswept silent sent => simpa [Event.concerns] using silent _ hmem
      | _ => simp_all

theorem removed_iff_worked (h : (connection H).Run guard evs s) (o : Nat) :
    .worked o .removeStream ∈ evs ↔ ∃ found, .removed o found ∈ evs := by
  refine h.invariant (I := fun evs _ =>
    .worked o .removeStream ∈ evs ↔ ∃ found, .removed o found ∈ evs) (by simp) ?_
  intro evs es s s' a hrun _ hs ih
  simp only [List.mem_append, exists_or]
  rw [ih, removed_step hrun hs o]

/-- What was removed is not in the map again. -/
theorem removed_absent (h : (connection H).Run guard evs s) {o : Nat}
    (he : .removed o (some o) ∈ evs) : ∃ k, s.ids[o]? = some k ∧ s.streams.lookup k = none := by
  refine h.invariant (I := fun evs s => .removed o (some o) ∈ evs →
    ∃ k, s.ids[o]? = some k ∧ s.streams.lookup k = none) ?_ ?_ he
  · intro he
    cases he
  · intro evs es s s' a hrun hguard hs ih he
    cases map_step hs with
    | same streams ids silent =>
        rcases List.mem_append.mp he with he | he
        · obtain ⟨k, hk, hlookup⟩ := ih he
          exact ⟨k, by rw [ids, hk], by rw [streams, hlookup]⟩
        · exact absurd he (silent o _)
    | insert f fresh streams ids events =>
        rw [events] at he
        rcases List.mem_append.mp he with he | he
        · obtain ⟨k, hk, hlookup⟩ := ih he
          have hk' := ids_grow hs hk
          refine ⟨k, hk', ?_⟩
          have hnew : s'.ids[s.ids.length]? = some f.streamId := by
            rw [ids]
            exact List.getElem?_concat_length
          have hne : k ≠ f.streamId := by
            rintro rfl
            have ho := (registry_run (hrun.step hguard hs)).unique hk' hnew
            rw [ho, List.getElem?_eq_none (Nat.le_refl _)] at hk
            cases hk
          rw [streams, AList.lookup_insert_ne hne, hlookup]
        · cases List.mem_singleton.mp he
    | erase o' k' id streams ids events =>
        rcases List.mem_append.mp he with he | he
        · obtain ⟨k, hk, hlookup⟩ := ih he
          refine ⟨k, by rw [ids, hk], ?_⟩
          rw [streams]
          by_cases hsame : k = k'
          · rw [hsame, AList.lookup_erase]
          · rw [AList.lookup_erase_ne hsame, hlookup]
        · rw [events] at he
          rcases List.mem_cons.mp he with heq | he
          · cases heq
          · obtain ⟨rfl, -⟩ := Event.removed.inj (List.mem_singleton.mp he)
            exact ⟨k', by rw [ids, id], by rw [streams, AList.lookup_erase]⟩

theorem removeStream_mem {f : Frame H} (h : .removeStream ∈ workerOps f) :
    ∃ r, f = .rstStream r := by
  have hclose : ∀ (p : Prop) [Decidable p], WorkerOp.removeStream ∉ closeIf p := by
    intro p _
    unfold closeIf
    split
    · simp
    · simp
  cases f with
  | rstStream r => exact ⟨r, rfl⟩
  | synReply sr => simp [workerOps, hclose] at h
  | headers hf => simp [workerOps, hclose] at h
  | data df => simp [workerOps, hclose] at h
  | synStream f => simp [workerOps] at h
  | settings _ | ping _ | goAway _ | windowUpdate _ => cases h

theorem mem_workedOn {o : Nat} {op : WorkerOp} :
    op ∈ evs.flatMap (Event.workedOn o) ↔ .worked o op ∈ evs := by
  constructor
  · intro h
    obtain ⟨e, he, hop⟩ := List.mem_flatMap.mp h
    cases e with
    | worked o' op' =>
        simp only [Event.workedOn] at hop
        split at hop
        · rename_i ho
          cases List.mem_singleton.mp hop
          rwa [← ho]
        · cases hop
    | _ => cases hop
  · exact fun h => List.mem_flatMap.mpr ⟨_, h, by simp [Event.workedOn]⟩

/-- When a worker is idle, it has removed the streams whose RST_STREAM it has
applied, and no others. -/
theorem removed_iff_applied (h : (connection H).Run guard evs s)
    (hidle : ∀ i, (s.workers i).todo = [])
    (o : Nat) : .removed o (some o) ∈ evs ↔
      ∃ r, .rstStream r ∈ evs.flatMap (Event.appliedTo o) := by
  have hops := ops_eq_worked h o
  have hdone : (s.workers (s.home o)).todoFor o = [] := by
    rw [Worker.todoFor, hidle]
    exact ite_self []
  rw [hdone, List.append_nil] at hops
  have hworked := removed_iff_worked h o
  rw [← mem_workedOn, ← hops, List.mem_flatMap] at hworked
  constructor
  · intro hremoved
    obtain ⟨f, hf, hop⟩ := hworked.mpr ⟨_, hremoved⟩
    obtain ⟨r, rfl⟩ := removeStream_mem hop
    exact ⟨r, hf⟩
  · rintro ⟨r, hr⟩
    obtain ⟨found, hfound⟩ := hworked.mp ⟨_, hr, by simp [workerOps]⟩
    exact (removed_itself h hfound).2

/-! ## The map and the active streams -/

/-- The streams in the map. -/
def State.present (s : State H) : List Nat := s.streams.entries.map Sigma.snd

theorem mem_present {o : Nat} : o ∈ s.present ↔ ∃ k, s.streams.lookup k = some o := by
  rw [State.present, List.mem_map]
  constructor
  · rintro ⟨⟨k, o⟩, hmem, rfl⟩
    exact ⟨k, AList.mem_lookup_iff.mpr hmem⟩
  · rintro ⟨k, hk⟩
    exact ⟨⟨k, o⟩, AList.mem_lookup_iff.mp hk, rfl⟩

theorem present_nodup (hreg : Registry s) : s.present.Nodup := by
  refine List.Nodup.map_on ?_ s.streams.nodupKeys.nodup
  rintro ⟨k, o⟩ h ⟨k', o'⟩ h' rfl
  have hk := hreg.owner k o (AList.mem_lookup_iff.mpr h)
  have hk' := hreg.owner k' o (AList.mem_lookup_iff.mpr h')
  rw [hk] at hk'
  cases hk'
  rfl

theorem present_lt (hreg : Registry s) {o : Nat} (ho : o ∈ s.present) : o < s.objs.length := by
  obtain ⟨k, hk⟩ := mem_present.mp ho
  have hlt := (List.getElem?_eq_some_iff.mp (hreg.owner k o hk)).1
  rwa [State.ids, List.length_map] at hlt

theorem streamCount_eq (s : State H) : s.streamCount = s.present.length := by
  rw [State.streamCount, State.present, AList.keys, List.keys, List.length_map, List.length_map]

/-- An RST_STREAM that was applied is a reset. -/
theorem ended_of_removed (h : (connection H).Run guard evs s) {o : Nat}
    (hremoved : .removed o (some o) ∈ evs) : s.ended evs o = true := by
  obtain ⟨k, hk, -⟩ := removed_absent h hremoved
  have hworked := (removed_iff_worked h o).mpr ⟨_, hremoved⟩
  have hreset : evs.any (Event.resets o k) = true :=
    List.any_eq_true.mpr ⟨_, hworked, decide_eq_true rfl⟩
  rw [State.ended, hk]
  simp [hreset]

/-- A map without ended streams holds all the others. -/
theorem onlyActive_of_map (h : (connection H).Run guard evs s)
    (hmap : ∀ k o, s.streams.lookup k = some o → s.ended evs o = false) : OnlyActive evs s := by
  have hreg := registry_run h
  have hmem : ∀ o, o ∈ s.present ↔ o < s.objs.length ∧ s.ended evs o = false := by
    intro o
    constructor
    · intro ho
      obtain ⟨k, hk⟩ := mem_present.mp ho
      exact ⟨present_lt hreg ho, hmap k o hk⟩
    · rintro ⟨hlt, hactive⟩
      have hid := ids_of_get (List.getElem?_eq_getElem hlt)
      rcases present_or_removed h hid with hlookup | hremoved
      · exact mem_present.mpr ⟨_, hlookup⟩
      · rw [ended_of_removed h hremoved] at hactive
        cases hactive
  have hcount : s.streamCount = (List.range s.objs.length).countP fun o => !s.ended evs o := by
    have hperm : s.present.Perm ((List.range s.objs.length).filter fun o => !s.ended evs o) := by
      refine (List.perm_ext_iff_of_nodup (present_nodup hreg) (List.nodup_range.filter _)).mpr ?_
      intro o
      rw [hmem, List.mem_filter, List.mem_range, Bool.not_eq_true']
    rw [streamCount_eq, hperm.length_eq, List.countP_eq_length_filter]
  refine ⟨hmap, hcount, fun hall hlock j hj => ?_⟩
  have hempty : s.streams.keys = [] := by
    rw [← List.length_eq_zero_iff]
    refine hcount.trans (List.countP_eq_zero.mpr fun o ho => ?_)
    rw [hall o (List.mem_range.mp ho)]
    simp
  simp only [State.step, State.stepClose, hj]
  exact if_pos ⟨hlock, hempty⟩

/-- **Active streams.**  In a quiescent state the map holds the active streams and no
others exactly if the peer has reset every stream that has ended. -/
theorem onlyActive_iff_peerReset (h : (connection H).Reached evs s) (hq : Quiescent s) :
    OnlyActive evs s ↔ ∀ o, s.ended evs o = true →
      ∃ r, .rstStream r ∈ evs.flatMap (Event.appliedTo o) := by
  constructor
  · intro hactive o hended
    obtain ⟨k, hk⟩ := ended_of_id hended
    refine (removed_iff_applied h hq.idle o).mp ?_
    rcases present_or_removed h hk with hlookup | hremoved
    · rw [hactive.map k o hlookup] at hended
      cases hended
    · exact hremoved
  · intro hreset
    refine onlyActive_of_map h fun k o hlookup => eq_false_of_ne_true fun hended => ?_
    have hremoved := (removed_iff_applied h hq.idle o).mpr (hreset o hended)
    obtain ⟨k', hk', hnone⟩ := removed_absent h hremoved
    have hid := (registry_run h).owner k o hlookup
    rw [hk'] at hid
    cases hid
    rw [hlookup] at hnone
    cases hnone

/-- Decide that a state is quiescent. -/
def State.isQuiescent (s : State H) : Bool :=
  decide (∀ i, (s.workers i).queue.length = 0 ∧ (s.workers i).todo = []) &&
    s.calls.all fun c => c.pc.isReturned

theorem quiescent_of_isQuiescent (h : s.isQuiescent = true) : Quiescent s := by
  rw [State.isQuiescent, Bool.and_eq_true, decide_eq_true_eq] at h
  exact ⟨fun i => List.length_eq_zero_iff.mp (h.1 i).1, fun i => (h.1 i).2, List.all_eq_true.mp h.2⟩

/-- Of two streams the peer resets one. -/
theorem onlyActive_iff_peerReset_twoStreams : ∃ evs s, (connection Unit).Reached evs s ∧
    s.streamCount = 1 ∧ s.objs.length = 2 ∧ (OnlyActive evs s ↔ ∀ o, s.ended evs o = true →
      ∃ r, .rstStream r ∈ evs.flatMap (Event.appliedTo o)) := by
  obtain ⟨evs, s, h, hcheck⟩ := Machine.exists_run_of_exec (connection Unit) Machine.free
    (registers (plainSyn 1 0) ++ applies (.synStream (plainSyn 1 0)) ++
      registers (plainSyn 3 0) ++ applies (.synStream (plainSyn 3 0)) ++
      routes plainReset ++ applies plainReset)
    (fun _ s => s.isQuiescent && decide (s.streamCount = 1 ∧ s.objs.length = 2))
    (by decide +kernel)
  rw [Bool.and_eq_true, decide_eq_true_eq] at hcheck
  obtain ⟨hquiet, hcount, hlength⟩ := hcheck
  exact ⟨evs, s, h, hcount, hlength,
    onlyActive_iff_peerReset h (quiescent_of_isQuiescent hquiet)⟩

/-- A request with FIN and a reply with FIN leave the stream in the map. -/
theorem ended_still_counted : ¬ ∀ evs (s : State Unit), (connection Unit).Reached evs s →
    Quiescent s → OnlyActive evs s := by
  intro hall
  obtain ⟨evs, s, h, hcheck⟩ := Machine.exists_run_of_exec (connection Unit) Machine.free
    (registers (plainSyn 1 0) ++ applies (.synStream (plainSyn 1 0)) ++
      routes (plainLast 7) ++ applies (plainLast 7) ++ reads 0 ++
      Action.invoke 0 (.sendReply () true) :: calls 1 4)
    (fun evs s => s.isQuiescent &&
      decide (s.streams.lookup 1 = some 0 ∧ s.ended evs 0 = true))
    (by decide +kernel)
  rw [Bool.and_eq_true, decide_eq_true_eq] at hcheck
  obtain ⟨hquiet, hlookup, hended⟩ := hcheck
  have hactive := (hall evs s h (quiescent_of_isQuiescent hquiet)).map 1 0 hlookup
  rw [hended] at hactive
  cases hactive

end SpdyStream.Session
