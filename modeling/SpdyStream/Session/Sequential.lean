/-
  Session/Sequential.lean --- the connection as a sequential receiver.

  Behind the tasks, the channels and the locks there is a simple machine, `Receiver`: it
  takes one frame after the other, and is done with each before it looks at the next.  The
  connection is not that: a frame may be looked up while others are still on their way to
  their workers.  But as long as `close` is not called, and the peer leaves the streams alone
  that it has reset, it decides as the receiver does, and at rest it has done all that the
  receiver has, in whatever order the tasks have run; a write task that has died keeps the
  answers back.
-/
import SpdyStream.Session.AtRest
import SpdyStream.Session.CloseOnce
import SpdyStream.Session.Echo
import SpdyStream.Session.Finished

set_option autoImplicit false

namespace SpdyStream.Session

open SpdyStream.Foundation
open SpdyStream.Framing

variable {H : Type}

/-! ## The receiver -/

/-- What has come of the frames that were taken. -/
structure Receiver (H : Type) where
  /-- the id of the last stream that was accepted -/
  last : UInt32
  accepted : List (SynStreamFrame H)
  /-- the frames that found their stream -/
  routed : List (Frame H)
  answers : List (Frame H)

namespace Receiver

def start : Receiver H := ⟨0, [], [], []⟩

/-- The ids of the streams. -/
def ids (r : Receiver H) : List UInt32 := r.accepted.map SynStreamFrame.streamId

def answer (r : Receiver H) (f : Frame H) : Receiver H := { r with answers := r.answers ++ [f] }

def route (r : Receiver H) (f : Frame H) : Receiver H := { r with routed := r.routed ++ [f] }

/-- The receiver takes a frame. -/
def take (r : Receiver H) : Frame H → Receiver H
  | .synStream f =>
      if f.streamId = 0 ∨ f.streamId % 2 = 0 ∨ f.streamId ≤ r.last then
        r.answer (.rstStream { streamId := f.streamId, status := .protocolError })
      else { r with last := f.streamId, accepted := r.accepted ++ [f] }
  | .data df =>
      if df.streamId ∈ r.ids then r.route (.data df)
      else r.answer (.rstStream { streamId := df.streamId, status := .invalidStream })
  | .synReply sr => if sr.streamId ∈ r.ids then r.route (.synReply sr) else r
  | .rstStream rs => if rs.streamId ∈ r.ids then r.route (.rstStream rs) else r
  | .headers hf => if hf.streamId ∈ r.ids then r.route (.headers hf) else r
  | .ping p => if p.id % 2 = 1 then r.answer (.ping p) else r
  | .goAway _ | .settings _ | .windowUpdate _ => r

/-- The frames of one stream, in the order they were taken. -/
def framesOf (r : Receiver H) (f : SynStreamFrame H) : List (Frame H) :=
  .synStream f :: r.routed.filter fun g => g.target = f.streamId

end Receiver

/-- The receiver takes some frames, one after the other. -/
def takeAll (fs : List (Frame H)) : Receiver H := fs.foldl Receiver.take Receiver.start

theorem takeAll_concat (fs : List (Frame H)) (f : Frame H) :
    takeAll (fs ++ [f]) = (takeAll fs).take f := List.foldl_concat ..

theorem take_synStream {r : Receiver H} {f : SynStreamFrame H} (hodd : f.streamId % 2 = 1)
    (hlt : r.last < f.streamId) :
    r.take (.synStream f) = { r with last := f.streamId, accepted := r.accepted ++ [f] } := by
  refine if_neg ?_
  grind

theorem take_stale {r : Receiver H} {f : SynStreamFrame H} (hle : f.streamId ≤ r.last) :
    r.take (.synStream f) = r.answer (rstFor f .protocolError) := if_pos (.inr (.inr hle))

theorem take_found {r : Receiver H} {f : Frame H} (hf : isRoutable f = true)
    (hmem : f.target ∈ r.ids) : r.take f = r.route f := by
  cases f with
  | synReply _ | rstStream _ | headers _ | data _ => exact if_pos hmem
  | _ => cases hf

theorem take_missed {r : Receiver H} {f : Frame H} (hf : isRoutable f = true)
    (hmem : f.target ∉ r.ids) :
    r.take f = { r with answers := r.answers ++ Event.owed (.lookedUp f none) } := by
  cases f with
  | data df => exact if_neg hmem
  | synReply _ | rstStream _ | headers _ =>
      refine (if_neg hmem).trans ?_
      simp [Event.owed]
  | _ => cases hf

/-- A frame that is neither decided nor looked up is answered, or not. -/
theorem take_plain {r : Receiver H} {f : Frame H} (hf : (dispatch f).isPlain = true) :
    r.take f = { r with answers := r.answers ++ (dispatch f).answer.toList } := by
  cases f with
  | synStream g =>
      by_cases hid : g.streamId = 0 ∨ g.streamId % 2 = 0
      · have htake : r.take (.synStream g) = r.answer (rstFor g .protocolError) :=
          if_pos (hid.imp_right .inl)
        rw [htake, dispatch, if_pos hid]
        rfl
      · rw [dispatch, if_neg hid] at hf
        cases hf
  | ping p =>
      simp only [Receiver.take, dispatch]
      split
      · rfl
      · simp [ReadTask.answer]
  | goAway _ | settings _ | windowUpdate _ => simp [Receiver.take, dispatch, ReadTask.answer]
  | synReply _ | rstStream _ | headers _ | data _ => cases hf

theorem take_routed (r : Receiver H) (f : Frame H) :
    (r.take f).routed = r.routed ∨ (r.take f).routed = r.routed ++ [f] := by
  cases f with
  | goAway _ | settings _ | windowUpdate _ => exact .inl rfl
  | synStream _ | ping _ =>
      simp only [Receiver.take]
      split
      · exact .inl rfl
      · exact .inl rfl
  | synReply _ | rstStream _ | headers _ | data _ =>
      simp only [Receiver.take]
      split
      · exact .inr rfl
      · exact .inl rfl

/-- What was routed has been taken. -/
theorem mem_of_routed {g : Frame H} (fs : List (Frame H)) (h : g ∈ (takeAll fs).routed) :
    g ∈ fs := by
  induction fs using List.reverseRecOn with
  | nil => cases h
  | append_singleton fs f ih =>
      rw [takeAll_concat] at h
      rcases take_routed (takeAll fs) f with hsame | hmore
      · rw [hsame] at h
        exact List.mem_append_left _ (ih h)
      · rw [hmore] at h
        rcases List.mem_append.mp h with hold | hnew
        · exact List.mem_append_left _ (ih hold)
        · exact List.mem_append_right _ hnew

/-! ## The connection, seen as a receiver -/

/-- The peer sends nothing for a stream that it has reset. -/
def Orderly (fs : List (Frame H)) : Prop :=
  fs.Pairwise fun f g => ∀ rs, f = .rstStream rs → isRoutable g = true → g.target ≠ rs.streamId

/-- The SYN_STREAM that was accepted. -/
def Event.admitted : Event H → List (SynStreamFrame H)
  | .accepted _ f => [f]
  | _ => []

/-- The frame that was found to be a stream's. -/
def Event.routedFrame : Event H → List (Frame H)
  | .lookedUp f (some _) => [f]
  | _ => []

/-- The frame that the read task has read and not yet dealt with. -/
def ReadTask.undecided : ReadTask H → List (Frame H)
  | .loadLast f | .loadGoneAway f | .register f => [.synStream f]
  | .lookup f => [f]
  | _ => []

/-- The id of the last stream that was accepted. -/
def State.lastAccepted (s : State H) : UInt32 :=
  match s.readTask with
  | .storeLast f _ => f.streamId
  | _ => s.lastClientStreamId

/-- What the connection has made of the frames it has dealt with. -/
def received (evs : List (Event H)) (s : State H) : Receiver H where
  last := s.lastAccepted
  accepted := evs.flatMap Event.admitted
  routed := evs.flatMap Event.routedFrame
  answers := evs.flatMap Event.owed

theorem ReadTask.undecided_of_holdsFrame {t : ReadTask H} (h : t.holdsFrame = false) :
    t.undecided = [] := by
  cases t with
  | loadLast _ | loadGoneAway _ | register _ | lookup _ => cases h
  | _ => rfl

theorem lastAccepted_of_holdsFrame {s : State H} (h : s.readTask.holdsFrame = false) :
    s.lastAccepted = s.lastClientStreamId := by
  unfold State.lastAccepted
  split
  · rename_i hpc
    rw [hpc] at h
    cases h
  · rfl

theorem lastAccepted_congr {s s' : State H} (htask : s'.readTask = s.readTask)
    (hlast : s'.lastClientStreamId = s.lastClientStreamId) : s'.lastAccepted = s.lastAccepted := by
  rw [State.lastAccepted, State.lastAccepted, htask, hlast]

/-- The event tells of no decision and no lookup. -/
def Event.isBlank : Event H → Bool
  | .accepted _ _ | .lookedUp _ _ | .rejected _ _ | .read _ => false
  | _ => true

theorem Event.isBlank_of_quiet {ev : Event H} (h : ev.isQuiet = true) : ev.isBlank = true := by
  cases ev with
  | accepted _ _ | lookedUp _ _ | rejected _ _ | read _ => cases h
  | _ => rfl

theorem received_blank (evs : List (Event H)) {es : List (Event H)} {s s' : State H}
    (hes : ∀ ev ∈ es, ev.isBlank = true) (hlast : s'.lastAccepted = s.lastAccepted) :
    received (evs ++ es) s' = received evs s ∧
      (evs ++ es).flatMap Event.frameRead = evs.flatMap Event.frameRead := by
  have hnone : ∀ {β : Type} (pick : Event H → List β), (∀ ev, ev.isBlank = true → pick ev = []) →
      (evs ++ es).flatMap pick = evs.flatMap pick := by
    intro β pick hpick
    rw [List.flatMap_append, List.flatMap_eq_nil_iff.mpr fun ev hev => hpick ev (hes ev hev),
      List.append_nil]
  have hblank : ∀ ev : Event H, ev.isBlank = true →
      ev.admitted = [] ∧ ev.routedFrame = [] ∧ ev.owed = [] ∧ Event.frameRead ev = [] := by
    intro ev hev
    cases ev with
    | accepted _ _ | lookedUp _ _ | rejected _ _ | read _ => cases hev
    | _ => exact ⟨rfl, rfl, rfl, rfl⟩
  refine ⟨?_, hnone _ fun ev hev => (hblank ev hev).2.2.2⟩
  rw [received, received, hlast, hnone Event.admitted fun ev hev => (hblank ev hev).1,
    hnone Event.routedFrame fun ev hev => (hblank ev hev).2.1,
    hnone Event.owed fun ev hev => (hblank ev hev).2.2.1]

/-! ## Frames of streams that were reset -/

variable {guard : List (Event H) → State H → Action H → Prop} {evs : List (Event H)} {s : State H}

/-- A frame that finds a stream is for its id. -/
theorem lookedUp_id (h : (connection H).Run guard evs s) {f : Frame H} {o : Nat}
    (he : .lookedUp f (some o) ∈ evs) : s.ids[o]? = some f.target := by
  have hmem : f ∈ evs.flatMap (Event.foundFor o) :=
    List.mem_flatMap.mpr ⟨_, he, by simp [Event.foundFor]⟩
  cases hid : s.ids[o]? with
  | none =>
      rw [(routed_none h hid).2] at hmem
      cases hmem
  | some k =>
      obtain ⟨f₀, hf₀, rfl⟩ := accepted_of_id h hid
      rw [((routed_log h hf₀).2 f hmem).2]

/-- A stream is removed for an RST_STREAM that was found for it. -/
theorem reset_of_removed (h : (connection H).Run guard evs s) {o : Nat} {k : UInt32}
    (hk : s.ids[o]? = some k) (hremoved : .removed o (some o) ∈ evs) :
    ∃ rs, .rstStream rs ∈ evs.flatMap Event.routedFrame ∧ rs.streamId = k := by
  obtain ⟨f₀, hf₀, rfl⟩ := accepted_of_id h hk
  obtain ⟨hlog, hown⟩ := routed_log h hf₀
  have hmem : .removeStream ∈ (evs.flatMap (Event.routedTo o)).flatMap workerOps := by
    rw [routed_eq_forwarded h o, forwarded_eq_applied h o, List.flatMap_append,
      List.flatMap_append, ops_eq_worked h o]
    simp only [List.mem_append]
    exact .inl (.inl (.inl (mem_workedOn.mpr ((removed_iff_worked h o).mpr ⟨_, hremoved⟩))))
  rw [hlog] at hmem
  obtain ⟨f, hf, hop⟩ := List.mem_flatMap.mp hmem
  obtain ⟨rs, rfl⟩ := removeStream_mem hop
  have hfound : .rstStream rs ∈ evs.flatMap (Event.foundFor o) := by
    rcases List.mem_cons.mp hf with heq | hf
    · cases heq
    · exact hf
  refine ⟨rs, ?_, (hown _ hfound).2⟩
  obtain ⟨ev, hev, hin⟩ := List.mem_flatMap.mp hfound
  cases ev with
  | lookedUp g found =>
      cases found with
      | none => cases hin
      | some o' =>
          simp only [Event.foundFor] at hin
          split at hin
          · cases List.mem_singleton.mp hin
            exact List.mem_flatMap.mpr ⟨_, hev, List.mem_singleton_self _⟩
          · cases hin
  | _ => cases hin

/-- A frame of a stream is not found only if there has been no such stream. -/
theorem absent_of_missed (h : (connection H).Run guard evs s) {f : Frame H}
    (miss : s.streams.lookup f.target = none)
    (horder : ∀ rs, .rstStream rs ∈ evs.flatMap Event.routedFrame → f.target ≠ rs.streamId) :
    f.target ∉ s.ids := by
  intro hmem
  obtain ⟨o, hk⟩ := List.getElem?_of_mem hmem
  rcases present_or_removed h hk with hlookup | hremoved
  · cases miss.symm.trans hlookup
  · obtain ⟨rs, hrs, hid⟩ := reset_of_removed h hk hremoved
    exact horder rs hrs hid.symm

/-! ## One step -/

/-- A call of `close` stays in the state. -/
theorem closes_before (h : (connection H).Run guard evs s) {s' : State H} {a : Action H}
    {es : List (Event H)} (hs : s.step a = some (s', es)) (hcloses : s'.closes = []) :
    s.closes = [] := by
  cases closes_move h hs with
  | same closes _ _ => exact closes.symm.trans hcloses
  | opens closes _ _ => simp [closes] at hcloses
  | givesUp k _ closes _ _ =>
      rw [closes] at hcloses
      exact (List.set_eq_nil_iff _ _).mp hcloses
  | own k step =>
      cases step with
      | _ => exact (List.set_eq_nil_iff _ _).mp hcloses

/-- Without a call of `close` a connection goes away when the peer says so. -/
theorem gone_why (h : (connection H).Run guard evs s) (hcloses : s.closes = [])
    (hgone : s.goneAway = true) : s.readTask.leaving = true := by
  refine h.invariant (I := fun _ s => s.closes = [] → s.goneAway = true →
    s.readTask.leaving = true) ?_ ?_ hcloses hgone
  · intro _ hgone
    cases hgone
  · intro evs es s s' a hrun _ hs ih hcloses hgone
    have hbefore := closes_before hrun hs hcloses
    have hmove := closed_move hs
    rcases hmove.gone hgone with hold | hleaving | hsome
    · exact hmove.leaving (ih hbefore hold)
    · exact hleaving
    · exact absurd hbefore hsome

/-- The frames read, and what the connection has made of those it has dealt with. -/
def AsReceiver (evs : List (Event H)) (s : State H) : Prop :=
  ∃ done, evs.flatMap Event.frameRead = done ++ s.readTask.undecided ∧ received evs s = takeAll done

/-- A step that leaves open what was open. -/
theorem AsReceiver.blank {es : List (Event H)} {s' : State H} (h : AsReceiver evs s)
    (hes : ∀ ev ∈ es, ev.isBlank = true) (hlast : s'.lastAccepted = s.lastAccepted)
    (htask : s'.readTask.undecided = s.readTask.undecided) : AsReceiver (evs ++ es) s' := by
  obtain ⟨done, hread, hreceived⟩ := h
  obtain ⟨hsame, hframes⟩ := received_blank evs hes hlast
  exact ⟨done, by rw [hframes, hread, htask], hsame.trans hreceived⟩

/-- A step that deals with the frame at hand. -/
theorem AsReceiver.takes {es : List (Event H)} {s' : State H} {f : Frame H}
    (h : AsReceiver evs s) (hf : s.readTask.undecided = [f]) (hes : es.flatMap Event.frameRead = [])
    (hnext : s'.readTask.undecided = [])
    (htake : received (evs ++ es) s' = (received evs s).take f) : AsReceiver (evs ++ es) s' := by
  obtain ⟨done, hread, hreceived⟩ := h
  refine ⟨done ++ [f], ?_, ?_⟩
  · rw [List.flatMap_append, hes, hread, hf, hnext, List.append_nil]
  · rw [htake, hreceived, takeAll_concat]

theorem received_concat (ev : Event H) (s' : State H) :
    received (evs ++ [ev]) s' =
      ⟨s'.lastAccepted, evs.flatMap Event.admitted ++ ev.admitted,
        evs.flatMap Event.routedFrame ++ ev.routedFrame, evs.flatMap Event.owed ++ ev.owed⟩ := by
  simp [received]

/-- Reading a frame. -/
theorem AsReceiver.reads {s' : State H} {f : Frame H} (h : AsReceiver evs s)
    (pc : s.readTask = .reading) (hnext : s'.readTask = dispatch f)
    (hlast : s'.lastClientStreamId = s.lastClientStreamId) :
    AsReceiver (evs ++ .read f :: rejectedAtOnce f) s' := by
  obtain ⟨done, hread, hreceived⟩ := h
  have hdone : evs.flatMap Event.frameRead = done := by
    rw [hread, pc]
    exact List.append_nil done
  have hframes : (evs ++ .read f :: rejectedAtOnce f).flatMap Event.frameRead = done ++ [f] := by
    rw [List.flatMap_append, hdone, List.flatMap_cons,
      flatMap_rejectedAtOnce Event.frameRead (fun _ _ => rfl)]
    rfl
  have hbefore : s.lastAccepted = s.lastClientStreamId :=
    lastAccepted_of_holdsFrame (by rw [pc]; rfl)
  have hafter : s'.lastAccepted = s'.lastClientStreamId := by
    rcases dispatch_cases f with ⟨hplain, -⟩ | ⟨g, -, -, hg⟩ | ⟨-, hg⟩
    · exact lastAccepted_of_holdsFrame (hnext ▸ ReadTask.holdsFrame_of_isPlain hplain)
    · rw [State.lastAccepted, hnext, hg]
    · rw [State.lastAccepted, hnext, hg]
  have hgets : received (evs ++ .read f :: rejectedAtOnce f) s' =
      { received evs s with
        answers := (received evs s).answers ++ (dispatch f).answer.toList } := by
    have hadmitted : (Event.read f :: rejectedAtOnce f).flatMap Event.admitted = [] := by
      rw [List.flatMap_cons, flatMap_rejectedAtOnce Event.admitted (fun _ _ => rfl)]
      rfl
    have hrouted : (Event.read f :: rejectedAtOnce f).flatMap Event.routedFrame = [] := by
      rw [List.flatMap_cons, flatMap_rejectedAtOnce Event.routedFrame (fun _ _ => rfl)]
      rfl
    rw [received, List.flatMap_append, List.flatMap_append, List.flatMap_append, hadmitted,
      hrouted, List.append_nil, List.append_nil, List.flatMap_cons, owed_read, hafter, hlast,
      ← hbefore]
    rfl
  have hheld : ReadTask.undecided (dispatch f) = [f] → (dispatch f).answer = none →
      AsReceiver (evs ++ .read f :: rejectedAtOnce f) s' := by
    intro hundecided hmute
    refine ⟨done, by rw [hframes, hnext, hundecided], ?_⟩
    rw [hgets, hmute, ← hreceived]
    simp
  rcases dispatch_cases f with ⟨hplain, -⟩ | ⟨g, rfl, -, hg⟩ | ⟨-, hg⟩
  · refine ⟨done ++ [f], ?_, ?_⟩
    · rw [hframes, hnext, ReadTask.undecided_of_holdsFrame (ReadTask.holdsFrame_of_isPlain hplain),
        List.append_nil]
    · rw [hgets, takeAll_concat, ← hreceived, take_plain hplain]
  · exact hheld (by rw [hg]; rfl) (by rw [hg]; rfl)
  · exact hheld (by rw [hg]; rfl) (by rw [hg]; rfl)

theorem received_ids (h : (connection H).Run guard evs s) : (received evs s).ids = s.ids := by
  rw [← accepted_ids h, Receiver.ids, received, List.map_flatMap]
  refine List.flatMap_congr fun ev _ => ?_
  cases ev with
  | _ => rfl

theorem AsReceiver.move {es : List (Event H)} {s' : State H} (hrun : (connection H).Run guard evs s)
    (h : AsReceiver evs s) (horderly : Orderly (evs.flatMap Event.frameRead))
    (hgone : s.goneAway = true → s.readTask.leaving = true) (hmove : ReadMove s s' es) :
    AsReceiver (evs ++ es) s' := by
  have hreg := registry_run hrun
  have htask := hreg.task
  cases hmove with
  | plain still before next loop mute =>
      have hnext := ReadTask.holdsFrame_of_isPlain next
      refine h.blank (by simp) ?_ ?_
      · rw [lastAccepted_of_holdsFrame before, lastAccepted_of_holdsFrame hnext, still.last]
      · rw [ReadTask.undecided_of_holdsFrame before, ReadTask.undecided_of_holdsFrame hnext]
  | answer f c es pc channel events =>
      have hbefore := ReadTask.holdsFrame_of_answer pc
      refine h.blank (fun ev hev => Event.isBlank_of_quiet (answer_quiet events ev hev)) ?_ ?_
      · rw [lastAccepted_of_holdsFrame hbefore]
        rfl
      · rw [ReadTask.undecided_of_holdsFrame hbefore]
        rfl
  | stale f pc le =>
      refine h.takes (f := .synStream f) (by rw [pc]; rfl) rfl rfl ?_
      have hlast : (received evs s).last = s.lastClientStreamId := by
        rw [received, State.lastAccepted, pc]
      rw [take_stale (hlast ▸ le), received_concat]
      simp [received, State.lastAccepted, pc, Receiver.answer, Event.admitted, Event.routedFrame,
        Event.owed]
  | checked f pc lt =>
      refine h.blank (by simp) ?_ (by rw [pc]; rfl)
      rw [State.lastAccepted, State.lastAccepted, pc]
  | refused f pc gone =>
      have hleaving := hgone gone
      rw [pc] at hleaving
      cases hleaving
  | passed f pc here =>
      refine h.blank (by simp) ?_ (by rw [pc]; rfl)
      rw [State.lastAccepted, State.lastAccepted, pc]
  | taken f pc mem => exact absurd mem (hreg.not_taken pc)
  | accept f pc notMem =>
      refine h.takes (f := .synStream f) (by rw [pc]; rfl) rfl rfl ?_
      rw [pc] at htask
      have hlast : (received evs s).last = s.lastClientStreamId := by
        rw [received, State.lastAccepted, pc]
      rw [take_synStream htask.1 (hlast ▸ htask.2), received_concat]
      simp [received, State.lastAccepted, Event.admitted, Event.routedFrame, Event.owed]
  | publish f o pc =>
      refine h.blank (by simp) ?_ (by rw [pc]; rfl)
      rw [State.lastAccepted, State.lastAccepted, pc]
  | found f o pc hit =>
      refine h.takes (f := f) (by rw [pc]; rfl) rfl rfl ?_
      rw [pc] at htask
      have hmem : f.target ∈ (received evs s).ids := by
        rw [received_ids hrun]
        exact List.mem_of_getElem? (hreg.owner _ o hit)
      have howed : Event.owed (.lookedUp f (some o)) = [] := by
        cases f with
        | _ => rfl
      rw [take_found htask hmem, received_concat, howed]
      simp [received, State.lastAccepted, pc, Receiver.route, Event.admitted, Event.routedFrame]
  | missed f pc miss =>
      rw [pc] at htask
      have hnext := ReadTask.holdsFrame_of_isPlain (missing_isPlain f)
      have hmem : f.target ∉ (received evs s).ids := by
        rw [received_ids hrun]
        refine absent_of_missed hrun miss fun rs hrs => ?_
        obtain ⟨done, hread, hreceived⟩ := h
        have hdone : .rstStream rs ∈ done := by
          refine mem_of_routed done ?_
          rw [← hreceived]
          exact hrs
        rw [hread, pc] at horderly
        exact (List.pairwise_append.mp horderly).2.2 _ hdone f (List.mem_singleton_self f) rs rfl
          htask
      refine h.takes (f := f) (by rw [pc]; rfl) rfl (ReadTask.undecided_of_holdsFrame hnext) ?_
      rw [take_missed htask hmem, received_concat, lastAccepted_of_holdsFrame hnext]
      simp [received, State.lastAccepted, pc, Event.admitted, Event.routedFrame]
  | deliver o f pc worker =>
      refine h.blank ?_ ?_ (by rw [pc]; rfl)
      · intro ev hev
        rw [List.mem_singleton.mp hev]
        rfl
      · rw [State.lastAccepted, State.lastAccepted, pc]

theorem AsReceiver.step {es : List (Event H)} {s' : State H} {a : Action H}
    (hrun : (connection H).Run guard evs s) (h : AsReceiver evs s)
    (horderly : Orderly (evs.flatMap Event.frameRead))
    (hgone : s.goneAway = true → s.readTask.leaving = true)
    (hs : s.step a = some (s', es)) : AsReceiver (evs ++ es) s' := by
  cases step_kind hs with
  | aside ha =>
      refine h.blank (fun ev hev => Event.isBlank_of_quiet (ha.quiet ev hev)) ?_ ?_
      · exact lastAccepted_congr ha.readTask ha.last
      · rw [ha.readTask]
  | read f pc state events =>
      rw [state, events]
      exact h.reads pc rfl rfl
  | move hmove => exact h.move hrun horderly hgone hmove
  | worker i hmove =>
      refine h.blank ?_ ?_ ?_
      · cases hmove with
        | _ => simp [Event.isBlank]
      · cases hmove with
        | _ => exact lastAccepted_congr rfl rfl
      · cases hmove with
        | _ => rfl

/-- As long as `close` is not called, and the peer sends nothing for a stream that it has
reset, the connection decides on every frame as the receiver does. -/
theorem received_run (h : (connection H).Run guard evs s) (hcloses : s.closes = [])
    (horderly : Orderly (evs.flatMap Event.frameRead)) : AsReceiver evs s := by
  refine h.invariant (I := fun evs s => s.closes = [] → Orderly (evs.flatMap Event.frameRead) →
    AsReceiver evs s) ?_ ?_ hcloses horderly
  · intro _ _
    exact ⟨[], rfl, rfl⟩
  · intro evs es s s' a hrun _ hs ih hcloses horderly
    have hbefore := closes_before hrun hs hcloses
    rw [List.flatMap_append] at horderly
    have horderly := (List.pairwise_append.mp horderly).1
    exact (ih hbefore horderly).step hrun horderly (gone_why hrun hbefore) hs

/-! ## At rest -/

/-- The SYN_STREAM that stream `o` was made for. -/
theorem accepted_of_admitted (h : (connection H).Run guard evs s) {o : Nat} {f : SynStreamFrame H}
    (hf : (evs.flatMap Event.admitted)[o]? = some f) :
    .accepted o f ∈ evs ∧ s.ids[o]? = some f.streamId := by
  have hids : (evs.flatMap Event.admitted).map SynStreamFrame.streamId = s.ids := received_ids h
  have hid : s.ids[o]? = some f.streamId := by
    rw [← hids, List.getElem?_map, hf]
    rfl
  obtain ⟨f', he, hsame⟩ := accepted_of_id h hid
  have hnodup : ((evs.flatMap Event.admitted).map SynStreamFrame.streamId).Nodup := by
    rw [hids]
    exact (registry_run h).increasing.imp fun hlt => UInt32.ne_of_lt hlt
  have hmem : f' ∈ evs.flatMap Event.admitted :=
    List.mem_flatMap.mpr ⟨_, he, List.mem_singleton_self f'⟩
  cases List.inj_on_of_nodup_map hnodup hmem (List.mem_of_getElem? hf) hsame
  exact ⟨he, hid⟩

/-- The frames found for a stream are the frames of its id. -/
theorem foundFor_eq_filter (h : (connection H).Run guard evs s) {o : Nat} {k : UInt32}
    (hid : s.ids[o]? = some k) :
    evs.flatMap (Event.foundFor o) =
      (evs.flatMap Event.routedFrame).filter fun g => g.target = k := by
  rw [List.filter_flatMap]
  refine List.flatMap_congr fun ev hev => ?_
  cases ev with
  | lookedUp g found =>
      cases found with
      | none => rfl
      | some o' =>
          have hgid := lookedUp_id h hev
          have hiff : o' = o ↔ g.target = k := by
            constructor
            · rintro rfl
              exact Option.some.inj (hgid.symm.trans hid)
            · rintro rfl
              exact (registry_run h).unique hgid hid
          by_cases ho : o' = o
          · simp [Event.foundFor, Event.routedFrame, ho, hiff.mp ho]
          · have hne : g.target ≠ k := fun heq => ho (hiff.mpr heq)
            simp [Event.foundFor, Event.routedFrame, ho, hne]
  | _ => rfl

/-- The connection has done what the receiver `r` has. -/
structure Sequential (evs : List (Event H)) (s : State H) (r : Receiver H) : Prop where
  last : s.lastClientStreamId = r.last
  /-- it has made the same streams -/
  streams : s.ids = r.ids
  /-- each of them has had done on it what its frames ask for, in the order of the frames -/
  worked : ∀ o f, r.accepted[o]? = some f →
    evs.flatMap (Event.workedOn o) = (r.framesOf f).flatMap workerOps
  /-- the map holds those that the peer has not reset, each under its id, and nothing else -/
  present : ∀ k o, s.streams.lookup k = some o ↔
    ∃ f, r.accepted[o]? = some f ∧ f.streamId = k ∧ ∀ rs, .rstStream rs ∉ r.framesOf f
  /-- the answers have been sent, unless the write task has died -/
  answered : s.writeChannel.isOpen = true → evs.flatMap Event.answered = r.answers

/-- A stream is in the map unless one of its frames has reset it. -/
theorem present_iff (h : (connection H).Run guard evs s) (hidle : ∀ i, (s.workers i).todo = [])
    {o : Nat} {f : SynStreamFrame H} (he : .accepted o f ∈ evs) :
    s.streams.lookup f.streamId = some o ↔
      ∀ rs, .rstStream rs ∉ evs.flatMap (Event.appliedTo o) := by
  have hid := (inOrder_of_accepted h he).object
  have hiff := removed_iff_applied h hidle o
  constructor
  · intro hlookup rs hrs
    obtain ⟨k, hk, hnone⟩ := removed_absent h (hiff.mpr ⟨rs, hrs⟩)
    cases Option.some.inj (hk.symm.trans hid)
    cases hnone.symm.trans hlookup
  · intro hnone
    rcases present_or_removed h hid with hlookup | hremoved
    · exact hlookup
    · obtain ⟨rs, hrs⟩ := hiff.mp hremoved
      exact absurd hrs (hnone rs)

/-- **The connection is a sequential receiver.**  Where `close` was not called, and the peer
has sent nothing for a stream that it had reset, a connection at rest has done with the
frames it has read what a receiver does that takes them one after the other: the same
streams, the same operations on each of them in the same order, and, unless the write task
has died, the same answers. -/
theorem sequential_settled (h : (connection H).Reached evs s)
    (hsettled : (connection H).Settled Action.isOwn s) (hcloses : s.closes = [])
    (horderly : Orderly (evs.flatMap Event.frameRead)) :
    Sequential evs s (takeAll (evs.flatMap Event.frameRead)) := by
  have hrest := (settled_iff h).mp hsettled
  have hoff := workedOff_atRest h hrest
  have hpc := hrest.plain.1
  obtain ⟨done, hread, hreceived⟩ := received_run h hcloses horderly
  rw [ReadTask.undecided_of_holdsFrame hpc, List.append_nil] at hread
  rw [hread, ← hreceived]
  have hframes : ∀ o f, (received evs s).accepted[o]? = some f → .accepted o f ∈ evs ∧
      .synStream f :: evs.flatMap (Event.foundFor o) = (received evs s).framesOf f := by
    intro o f hf
    obtain ⟨he, hid⟩ := accepted_of_admitted h hf
    refine ⟨he, ?_⟩
    rw [foundFor_eq_filter h hid]
    rfl
  constructor
  · exact (lastAccepted_of_holdsFrame hpc).symm
  · exact (received_ids h).symm
  · intro o f hf
    obtain ⟨he, heq⟩ := hframes o f hf
    rw [← heq]
    exact hoff.worked o f he
  · have hpresent : ∀ o f, (received evs s).accepted[o]? = some f →
        (s.streams.lookup f.streamId = some o ↔
          ∀ rs, .rstStream rs ∉ (received evs s).framesOf f) := fun o f hf => by
      obtain ⟨he, heq⟩ := hframes o f hf
      have happlied := applied_of_idle h hpc (fun i => (hrest.workers i).1) he
      rw [← heq, ← happlied]
      exact present_iff h (fun i => (hrest.workers i).2) he
    intro k o
    constructor
    · intro hlookup
      -- what the map holds under an id was made for a SYN_STREAM with this id
      have hid := (registry_run h).owner k o hlookup
      rw [← received_ids h, Receiver.ids, List.getElem?_map] at hid
      obtain ⟨f, hf, rfl⟩ := Option.map_eq_some_iff.mp hid
      exact ⟨f, hf, rfl, (hpresent o f hf).mp hlookup⟩
    · rintro ⟨f, hf, rfl, hnone⟩
      exact (hpresent o f hf).mpr hnone
  · exact hoff.answered

/-- Two streams are opened, data comes for the second, the first is reset, and a PING is read. -/
def crossing : List (Frame Unit) :=
  [.synStream (plainSyn 1 0), .synStream (plainSyn 3 0),
    .data { streamId := 3, flags := 0, data := [7] },
    .rstStream { streamId := 1, status := .cancel }, .ping { id := 5 }]

/-- Nothing is applied before all of it has been read, and the second stream comes first. -/
theorem sequential_settled_crossing : ∃ evs s, (connection Unit).Reached evs s ∧
    evs.flatMap Event.frameRead = crossing ∧ Sequential evs s (takeAll crossing) := by
  obtain ⟨evs, s, h, hcheck⟩ := Machine.exists_run_of_exec (connection Unit) Machine.free
    (registers (plainSyn 1 0) ++ registers (plainSyn 3 0) ++
      routes (.data { streamId := 3, flags := 0, data := [7] }) ++
      routes (.rstStream { streamId := 1, status := .cancel }) ++
      [.read (.ping { id := 5 }), .readTask 0, .write, .write] ++
      applies (.synStream (plainSyn 3 0)) ++
      applies (.data { streamId := 3, flags := 0, data := [7] }) ++
      applies (.synStream (plainSyn 1 0)) ++
      applies (.rstStream { streamId := 1, status := .cancel }))
    (fun evs s => decide (evs.flatMap Event.frameRead = crossing ∧
      (s.step (.read (.ping { id := 7 }))).isSome = true ∧
      (∀ i, (s.workers i).queue = [] ∧ (s.workers i).todo = []) ∧
      s.writeChannel.queue = [] ∧ s.calls = [] ∧ s.closes = [] ∧ s.pings = []))
    (by decide +kernel)
  obtain ⟨hread, hready, hworkers, hqueue, hcalls, hcloses, hpings⟩ := of_decide_eq_true hcheck
  obtain ⟨⟨_, _⟩, hnext⟩ := Option.isSome_iff_exists.mp hready
  have hrest : AtRest s :=
    ⟨.inl (read_step hnext).1, hworkers, hqueue, by simp [hcalls], by simp [hcloses],
      by simp [hpings]⟩
  have horderly : Orderly crossing := by
    simp [Orderly, crossing, plainSyn, Frame.target, isRoutable]
  refine ⟨evs, s, h, hread, ?_⟩
  rw [← hread]
  exact sequential_settled h ((settled_iff h).mpr hrest) hcloses (hread ▸ horderly)

end SpdyStream.Session
