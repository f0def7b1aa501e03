/-
  Session/ShadowTask.lean --- the shadow of the read task.

  A frame of the stream takes the read task of the shadow the same way; with a frame
  of another stream it stays where it waits for the next one.  The counter, the map
  and the lock of the teardown are shared by all streams, and decide alike in both.
-/
import SpdyStream.Session.Finished
import SpdyStream.Session.Shadow

set_option autoImplicit false

namespace SpdyStream.Session

open SpdyStream.Foundation
open SpdyStream.Framing

variable {H : Type} {o : Nat} {t : UInt32} {s s' : State H}

/-! ## Reading -/

/-- Only the frame of another stream is not kept. -/
theorem keeps_iff {f : Frame H} : keeps t f = true ↔ (isStreamFrame f = true → f.target = t) := by
  cases hf : isStreamFrame f with
  | false => simp [keeps, hf]
  | true => simp [keeps, hf]

theorem keeps_rst (r : RstStreamFrame) :
    keeps t (.rstStream r : Frame H) = true ↔ r.streamId = t := by
  rw [keeps_iff]
  exact ⟨fun h => h rfl, fun h _ => h⟩

theorem dispatch_shadow (o : Nat) (t : UInt32) (f : Frame H) :
    (dispatch f).shadow o t = if keeps t f = true then dispatch f else .reading := by
  cases f with
  | synStream f =>
      have hkeeps : keeps t (.synStream f) = true ↔ f.streamId = t := by
        rw [keeps_iff]
        exact ⟨fun h => h rfl, fun h _ => h⟩
      by_cases hid : f.streamId = 0 ∨ f.streamId % 2 = 0
      · have hnext : dispatch (.synStream f) = .respond (rstFor f .protocolError) := if_pos hid
        rw [hnext]
        exact if_congr ((keeps_rst _).trans hkeeps.symm) rfl rfl
      · have hnext : dispatch (.synStream f) = .loadLast f := if_neg hid
        rw [hnext]
        exact if_congr hkeeps.symm rfl rfl
  | ping f =>
      by_cases hid : f.id % 2 = 1
      · have hnext : dispatch (.ping f : Frame H) = .respond (.ping f) := if_pos hid
        rw [hnext]
        rfl
      · have hnext : dispatch (.ping f : Frame H) = .resolvePing f.id := if_neg hid
        rw [hnext]
        rfl
  | synReply f | rstStream f | headers f | data f =>
      refine if_congr ?_ rfl rfl
      rw [keeps_iff]
      exact ⟨fun h _ => h, fun h => h rfl⟩
  | settings _ | goAway _ | windowUpdate _ => rfl

theorem rejectedAtOnce_unseen (f : Frame H) :
    (rejectedAtOnce f).flatMap Event.frameRead = [] ∧
      (rejectedAtOnce f).flatMap (Event.effects o t) = [] :=
  ⟨flatMap_rejectedAtOnce _ (fun _ _ => rfl) f, flatMap_rejectedAtOnce _ (fun _ _ => rfl) f⟩

/-- A frame of another stream is not read in the shadow. -/
theorem casts_read (h : Shadow o t s s') {f : Frame H} {s₁ : State H} {es : List (Event H)}
    (hs : s.step (.read f) = some (s₁, es)) : Casts o t ⟨s, .read f, s₁, es⟩ s' := by
  simp only [State.step, State.readFrame] at hs
  split at hs
  · rename_i hpc
    cases hs
    have hpc' : s'.readTask = .reading := by
      rw [h.task, hpc]
      rfl
    obtain ⟨hread, heffects⟩ := rejectedAtOnce_unseen (o := o) (t := t) f
    have hnext := dispatch_shadow o t f
    by_cases hkeeps : keeps t f = true
    · rw [if_pos hkeeps] at hnext
      let s'' : State H := { s' with
        readTask := dispatch f
        initialWindowSize := windowAfter s'.initialWindowSize f }
      have hs' : s'.step (.read f) = some (s'', .read f :: rejectedAtOnce f) := by
        simp only [State.step, State.readFrame, hpc']
        rfl
      refine casts_one hs' { h with task := hnext.symm } ?_ ?_
      · simp [Event.frameRead, hread, hkeeps]
      · have heffects' := (rejectedAtOnce_unseen (o := 0) (t := t) f).2
        simp [stepEffects, State.sweeps, Event.effects, heffects, heffects']
    · rw [if_neg hkeeps] at hnext
      refine casts_none { h with task := hpc'.trans hnext.symm } ?_ ?_
      · simp [framesRead, Event.frameRead, hread, hkeeps]
      · simp [effectsOn, stepEffects, State.sweeps, Event.effects, heffects]
  · cases hs

theorem casts_readEnds (h : Shadow o t s s') {a : Action H}
    (ha : a = .readFail ∨ a = .readPanic) {s₁ : State H} {es : List (Event H)}
    (hs : s.step a = some (s₁, es)) : Casts o t ⟨s, a, s₁, es⟩ s' := by
  have hends : ∀ next : ReadTask H, next.shadow o t = next → s.readEnds next = some (s₁, es) →
      s.readTask = .reading ∧ s₁ = { s with readTask := next } ∧ es = [] ∧
        s'.readEnds next = some ({ s' with readTask := next }, []) ∧
        Shadow o t { s with readTask := next } { s' with readTask := next } := by
    intro next hnext hs
    unfold State.readEnds at hs
    split at hs
    · rename_i hpc
      cases hs
      have hpc' : s'.readTask = .reading := by
        rw [h.task, hpc]
        rfl
      refine ⟨hpc, rfl, rfl, ?_, { h with task := hnext.symm }⟩
      unfold State.readEnds
      rw [hpc']
    · cases hs
  rcases ha with rfl | rfl
  · obtain ⟨-, rfl, rfl, hs', hshadow⟩ := hends .lockStreams rfl hs
    have hstep : s'.step .readFail = some (_, []) := hs'
    exact casts_one hstep hshadow rfl rfl
  · obtain ⟨-, rfl, rfl, hs', hshadow⟩ := hends .dead rfl hs
    have hstep : s'.step .readPanic = some (_, []) := hs'
    exact casts_one hstep hshadow rfl rfl

/-! ## One step of the read task -/

theorem sweeps_not {s : State H} {pick : Nat} (hpc : ∀ rest, s.readTask ≠ .sweep rest) :
    s.sweeps o (.readTask pick) = false := by
  cases htask : s.readTask with
  | sweep rest => exact absurd htask (hpc rest)
  | _ => simp only [State.sweeps, htask]

/-- A step of the read task that shows nothing of the stream. -/
theorem casts_unseen {pick : Nat} {s₁ : State H} {es : List (Event H)}
    (hpc : ∀ rest, s.readTask ≠ .sweep rest) (h : Shadow o t s₁ s')
    (hread : es.flatMap Event.frameRead = []) (heffects : es.flatMap (Event.effects o t) = []) :
    Casts o t ⟨s, .readTask pick, s₁, es⟩ s' := by
  refine casts_none h ?_ ?_
  · simp [framesRead, hread]
  · simp [effectsOn, stepEffects, sweeps_not hpc, heffects]

/-- A step of the read task that is taken in the shadow as well. -/
theorem casts_task {pick : Nat} {s₁ s'' : State H} {es es' : List (Event H)}
    (hpc : ∀ rest, s.readTask ≠ .sweep rest) (hpc' : ∀ rest, s'.readTask ≠ .sweep rest)
    (hs : s'.step (.readTask 0) = some (s'', es')) (h : Shadow o t s₁ s'')
    (hread : es.flatMap Event.frameRead = []) (hread' : es'.flatMap Event.frameRead = [])
    (heffects : es'.flatMap (Event.effects 0 t) = es.flatMap (Event.effects o t)) :
    Casts o t ⟨s, .readTask pick, s₁, es⟩ s' := by
  refine casts_one hs h ?_ ?_
  · rw [hread, hread']
    rfl
  · simp [stepEffects, sweeps_not hpc, sweeps_not hpc', heffects]

/-! ## A SYN_STREAM -/

/-- The counter decides alike. -/
theorem Shadow.le_last (h : Shadow o t s s') :
    t ≤ s'.lastClientStreamId ↔ t ≤ s.lastClientStreamId := by
  rw [h.last]
  split
  · rename_i hlt
    constructor
    · intro hzero
      exact absurd (UInt32.lt_of_lt_of_le hlt hzero) UInt32.not_lt_zero
    · intro hle
      exact absurd (UInt32.lt_of_lt_of_le hlt hle) (UInt32.lt_irrefl _)
  · rename_i hle
    exact ⟨fun _ => UInt32.not_lt.mp hle, fun _ => UInt32.le_refl t⟩

/-- A gate of the read task, where a SYN_STREAM is refused or goes on to the next
place: it decides alike in the shadow. -/
theorem casts_gate {f : SynStreamFrame H} {gate : ReadTask H} (refuses : State H → Prop)
    [∀ u, Decidable (refuses u)] (status : RstStatus) (next : ReadTask H)
    (h : Shadow o t s s') (hpc : s.readTask = gate) {pick : Nat} {s₁ : State H}
    {es : List (Event H)} (hs : s.step (.readTask pick) = some (s₁, es))
    (hgate : gate.shadow o t = if f.streamId = t then gate else .reading)
    (hnext : next.shadow o t = if f.streamId = t then next else .reading)
    (hnot : ∀ rest, gate ≠ .sweep rest)
    (hstep : ∀ (u : State H) (pick : Nat), u.readTask = gate → u.step (.readTask pick) =
      if refuses u then
        some ({ u with readTask := .respond (rstFor f status) }, [.rejected f status])
      else some ({ u with readTask := next }, []))
    (halike : f.streamId = t → (refuses s' ↔ refuses s)) :
    Casts o t ⟨s, .readTask pick, s₁, es⟩ s' := by
  have hsweep : ∀ rest, s.readTask ≠ .sweep rest := hpc ▸ hnot
  have htask := h.task
  rw [hstep s pick hpc] at hs
  by_cases hf : f.streamId = t
  · rw [hpc, hgate, if_pos hf] at htask
    have hsweep' : ∀ rest, s'.readTask ≠ .sweep rest := htask ▸ hnot
    have hs' := hstep s' 0 htask
    split at hs
    · rename_i hrefuses
      rw [if_pos ((halike hf).mpr hrefuses)] at hs'
      cases hs
      exact casts_task hsweep hsweep' hs'
        { h with task := (if_pos ((keeps_rst _).mpr hf)).symm } rfl rfl rfl
    · rename_i hpasses
      rw [if_neg fun hrefuses => hpasses ((halike hf).mp hrefuses)] at hs'
      cases hs
      exact casts_task hsweep hsweep' hs' { h with task := (hnext.trans (if_pos hf)).symm }
        rfl rfl rfl
  · rw [hpc, hgate, if_neg hf] at htask
    split at hs
    · cases hs
      refine casts_unseen hsweep { h with task := ?_ } rfl rfl
      exact htask.trans (if_neg fun hkeeps => hf ((keeps_rst _).mp hkeeps)).symm
    · cases hs
      exact casts_unseen hsweep { h with task := htask.trans (hnext.trans (if_neg hf)).symm }
        rfl rfl

theorem casts_loadLast (h : Shadow o t s s') {f : SynStreamFrame H} (hpc : s.readTask = .loadLast f)
    {pick : Nat} {s₁ : State H} {es : List (Event H)}
    (hs : s.step (.readTask pick) = some (s₁, es)) : Casts o t ⟨s, .readTask pick, s₁, es⟩ s' := by
  refine casts_gate (fun u => f.streamId ≤ u.lastClientStreamId) .protocolError
    (.loadGoneAway f) h hpc hs rfl rfl (by simp) ?_ ?_
  · intro u pick hu
    simp only [State.step, State.readStep, hu]
  · rintro rfl
    exact h.le_last

theorem casts_loadGoneAway (h : Shadow o t s s') {f : SynStreamFrame H}
    (hpc : s.readTask = .loadGoneAway f) {pick : Nat} {s₁ : State H} {es : List (Event H)}
    (hs : s.step (.readTask pick) = some (s₁, es)) : Casts o t ⟨s, .readTask pick, s₁, es⟩ s' := by
  refine casts_gate (fun u => u.goneAway = true) .refusedStream (.register f) h hpc hs
    rfl rfl (by simp) ?_ ?_
  · intro u pick hu
    simp only [State.step, State.readStep, hu]
  · intro _
    rw [h.gone]

/-- The stream that is awaited is the next to be made. -/
theorem casts_register (hreg : Registry s) (h : Shadow o t s s') {f : SynStreamFrame H}
    (hpc : s.readTask = .register f) {pick : Nat} {s₁ : State H} {es : List (Event H)}
    (hs : s.step (.readTask pick) = some (s₁, es)) (hafter : s₁.Awaits o t) :
    Casts o t ⟨s, .readTask pick, s₁, es⟩ s' := by
  have hsweep : ∀ rest, s.readTask ≠ .sweep rest := by simp [hpc]
  have htask := h.task
  have hfresh := hreg.not_taken hpc
  simp only [State.step, State.readStep, hpc, State.register, if_neg hfresh] at hs
  cases hs
  set s₁ : State H := { s with
    objs := s.objs ++ [Stream.new f.streamId f.headers f.priority]
    streams := s.streams.insert f.streamId s.objs.length
    readTask := .storeLast f s.objs.length } with hs₁
  have hlast : s₁.objs[s.objs.length]? = some (Stream.new f.streamId f.headers f.priority) :=
    List.getElem?_concat_length
  have hnew : s₁.ids[s.objs.length]? = some f.streamId := ids_of_get hlast
  by_cases hf : f.streamId = t
  · subst hf
    have ho : s.objs.length = o := awaited_unique (hreg.accept hpc) hafter hnew
    subst ho
    rw [hpc, ReadTask.shadow, if_pos rfl] at htask
    have hsweep' : ∀ rest, s'.readTask ≠ .sweep rest := by simp [htask]
    have hmiss : s.streams.lookup f.streamId = none := AList.lookup_eq_none.mpr hfresh
    have hfresh' : f.streamId ∉ s'.streams := by
      rw [← AList.lookup_eq_none, h.streams, if_pos rfl, hmiss]
      rfl
    have hobjs' : s'.objs = [] := by
      rw [h.objs, List.getElem?_eq_none (Nat.le_refl _)]
      rfl
    have hs' : s'.step (.readTask 0) = some ({ s' with
        objs := [Stream.new f.streamId f.headers f.priority]
        streams := s'.streams.insert f.streamId 0
        readTask := .storeLast f 0 }, [.accepted 0 f]) := by
      simp [State.step, State.readStep, htask, State.register, hfresh', hobjs']
    refine casts_task hsweep hsweep' hs' { h with
      task := (if_pos rfl).symm
      objs := by simp [hs₁]
      streams := fun k => ?_ } rfl rfl (by simp [Event.effects])
    by_cases hk : k = f.streamId
    · subst hk
      rw [if_pos rfl, AList.lookup_insert, AList.lookup_insert]
      rfl
    · rw [if_neg hk, AList.lookup_insert_ne hk, h.streams, if_neg hk]
  · rw [hpc, ReadTask.shadow, if_neg hf] at htask
    have ho : o ≠ s.objs.length := fun ho => hf (other_id hafter (ho ▸ hnew))
    refine casts_unseen hsweep { h with
      task := htask.trans (if_neg hf).symm
      objs := by rw [h.objs, hs₁, get_concat_other _ ho]
      streams := fun k => ?_ } rfl (by simp [Event.effects, Ne.symm ho])
    rw [h.streams, hs₁, AList.lookup_insert_ne (Ne.symm hf)]

/-- The counter passes the id that is awaited with its own store only. -/
theorem casts_storeLast (hreg : Registry s) (h : Shadow o t s s') {f : SynStreamFrame H} {o₁ : Nat}
    (hpc : s.readTask = .storeLast f o₁) {pick : Nat} {s₁ : State H} {es : List (Event H)}
    (hs : s.step (.readTask pick) = some (s₁, es)) (hafter : s₁.Awaits o t) :
    Casts o t ⟨s, .readTask pick, s₁, es⟩ s' := by
  have hsweep : ∀ rest, s.readTask ≠ .sweep rest := by simp [hpc]
  have htask := h.task
  have hsound := hreg.task
  rw [hpc] at hsound
  simp only [State.step, State.readStep, hpc] at hs
  cases hs
  by_cases hf : f.streamId = t
  · subst hf
    rw [hpc, ReadTask.shadow, if_pos rfl] at htask
    have hsweep' : ∀ rest, s'.readTask ≠ .sweep rest := by simp [htask]
    have hs' : s'.step (.readTask 0) = some ({ s' with
        lastClientStreamId := f.streamId
        readTask := .forward 0 (.synStream f) }, []) := by
      simp only [State.step, State.readStep, htask]
    exact casts_task hsweep hsweep' hs' { h with
      task := (if_pos rfl).symm
      last := (if_neg (UInt32.lt_irrefl _)).symm } rfl rfl rfl
  · rw [hpc, ReadTask.shadow, if_neg hf] at htask
    have hlast : s.lastClientStreamId < t ↔ f.streamId < t := by
      constructor
      · intro hlt
        rcases hafter with hid | ⟨-, -, hlt', -⟩
        · have hbound := hreg.bounded t (List.mem_of_getElem? hid)
          rw [hpc] at hbound
          rcases hbound with hle | heq
          · exact absurd (UInt32.lt_of_lt_of_le hlt hle) (UInt32.lt_irrefl _)
          · exact absurd heq.symm hf
        · exact hlt'
      · exact UInt32.lt_trans hsound.1
    refine casts_unseen hsweep { h with
      task := htask.trans (if_neg hf).symm
      last := ?_ } rfl rfl
    rw [h.last]
    exact if_congr hlast rfl rfl

/-! ## A frame of a stream -/

theorem missing_shadow (o : Nat) (t : UInt32) (f : Frame H) :
    (missing f).shadow o t = if f.target = t then missing f else .reading := by
  cases f with
  | data f =>
      refine if_congr (keeps_rst _) rfl rfl
  | _ => exact (ite_self _).symm

/-- A frame of the stream finds it if it is there. -/
theorem casts_lookup (h : Shadow o t s s') {f : Frame H}
    (hpc : s.readTask = .lookup f) {pick : Nat} {s₁ : State H} {es : List (Event H)}
    (hs : s.step (.readTask pick) = some (s₁, es)) : Casts o t ⟨s, .readTask pick, s₁, es⟩ s' := by
  have hsweep : ∀ rest, s.readTask ≠ .sweep rest := by simp [hpc]
  have htask := h.task
  simp only [State.step, State.readStep, hpc, State.lookup] at hs
  by_cases hf : f.target = t
  · subst hf
    rw [hpc, ReadTask.shadow, if_pos rfl] at htask
    have hsweep' : ∀ rest, s'.readTask ≠ .sweep rest := by simp [htask]
    have hstreams := h.streams f.target
    rw [if_pos rfl] at hstreams
    split at hs
    · rename_i o₁ hit
      cases hs
      rw [hit] at hstreams
      have hs' : s'.step (.readTask 0) = some ({ s' with readTask := .forward 0 f },
          [.lookedUp f (some 0)]) := by
        simp [State.step, State.readStep, htask, State.lookup, hstreams]
      exact casts_task hsweep hsweep' hs' { h with task := (if_pos rfl).symm } rfl rfl rfl
    · rename_i hmiss
      cases hs
      rw [hmiss] at hstreams
      have hs' : s'.step (.readTask 0) = some ({ s' with readTask := missing f },
          [.lookedUp f none]) := by
        simp [State.step, State.readStep, htask, State.lookup, hstreams]
      exact casts_task hsweep hsweep' hs'
        { h with task := (missing_shadow o _ f).symm ▸ (if_pos rfl).symm } rfl rfl rfl
  · rw [hpc, ReadTask.shadow, if_neg hf] at htask
    split at hs
    · cases hs
      exact casts_unseen hsweep { h with task := htask.trans (if_neg hf).symm } rfl rfl
    · cases hs
      refine casts_unseen hsweep { h with task := ?_ } rfl rfl
      rw [htask, missing_shadow, if_neg hf]

/-- A frame is sent to the worker of its stream. -/
theorem casts_forward (hreg : Registry s) (h : Shadow o t s s') {f : Frame H} {o₁ : Nat}
    (hpc : s.readTask = .forward o₁ f) {pick : Nat} {s₁ : State H} {es : List (Event H)}
    (hs : s.step (.readTask pick) = some (s₁, es)) (hbefore : s.Awaits o t) :
    Casts o t ⟨s, .readTask pick, s₁, es⟩ s' := by
  have hsweep : ∀ rest, s.readTask ≠ .sweep rest := by simp [hpc]
  have htask := h.task
  have hid := hreg.task
  rw [hpc] at hid
  have hid : s.ids[o₁]? = some f.target := hid
  simp only [State.step, State.readStep, hpc, State.forward] at hs
  split at hs
  · rename_i hroom
    cases hs
    have hworker := h.workers (workerIdx f.target)
    by_cases hf : f.target = t
    · have ho : o₁ = o := awaited_unique hreg hbefore (hf ▸ hid)
      subst ho
      rw [hpc, ReadTask.shadow, if_pos hf] at htask
      have hsweep' : ∀ rest, s'.readTask ≠ .sweep rest := by simp [htask]
      have hroom' : (s'.workers (workerIdx f.target)).queue.length < workerCapacity := by
        rw [hworker.queue]
        exact Nat.lt_of_le_of_lt (shadowQueue_length_le _ _) hroom
      let w' : Worker H := { s'.workers (workerIdx f.target) with
        queue := (s'.workers (workerIdx f.target)).queue ++ [{ frame := f, stream := 0 }] }
      have hs' : s'.step (.readTask 0) = some ({ s' with
          readTask := .reading
          workers := Function.update s'.workers (workerIdx f.target) w' }, [.forwarded 0 f]) := by
        simp only [State.step, State.readStep, htask, State.forward, if_pos hroom', w']
      refine casts_task hsweep hsweep' hs' { h with
        task := rfl
        workers := h.update { hworker with queue := ?_ } } rfl rfl rfl
      rw [shadowQueue_append, ← hworker.queue, shadowQueue_own (m := ⟨f, o₁⟩) rfl]
      rfl
    · have ho : o₁ ≠ o := fun ho => hf (other_id hbefore (ho ▸ hid))
      rw [hpc, ReadTask.shadow, if_neg hf] at htask
      refine casts_unseen hsweep { h with
        task := htask
        workers := h.update_unseen { hworker with queue := ?_ } } rfl rfl
      rw [shadowQueue_append, ← hworker.queue, shadowQueue_other ho]
      exact (List.append_nil _).symm
  · cases hs

/-! ## Answers -/

/-- The channel has room, if its receiver is still there. -/
def Channel.HasRoom (c : Channel H) : Prop := c.isOpen = true → c.queue = []

/-- A frame is seen to be sent if the receiver is still there. -/
theorem sendIgnoring_events {s s₁ : State H} {src : Source} {f : Frame H} {es : List (Event H)}
    (h : s.sendIgnoring src f = some (s₁, es)) :
    es = if s.writeChannel.isOpen = true then [.enqueued src f] else [] := by
  unfold State.sendIgnoring at h
  split at h
  · cases h
  · rename_i hclosed
    cases h
    simp [closed_of_send hclosed]
  · rename_i hsent
    cases h
    simp [open_of_send hsent]

/-- A send does not wait where there is room. -/
theorem sendIgnoring_room {s : State H} (hroom : s.writeChannel.HasRoom) (src : Source)
    (f : Frame H) : ∃ r, s.sendIgnoring src f = some r := by
  unfold State.sendIgnoring Channel.send
  cases hopen : s.writeChannel.isOpen with
  | false => exact ⟨_, rfl⟩
  | true =>
      rw [hroom hopen]
      exact ⟨_, rfl⟩

theorem enqueued_unseen {f : Frame H} (hf : keeps t f ≠ true) :
    Event.effects o t (.enqueued .readTask f) = [] := by
  cases f with
  | rstStream r => exact if_neg fun hr => hf ((keeps_rst r).mpr hr)
  | _ => rfl

theorem enqueued_seen (f : Frame H) :
    Event.effects 0 t (.enqueued .readTask f) = Event.effects o t (.enqueued .readTask f) := by
  cases f with
  | _ => rfl

/-- An answer is sent; the shadow has room for it. -/
theorem casts_respond (h : Shadow o t s s') (hroom : s'.writeChannel.HasRoom) {f : Frame H}
    (hpc : s.readTask = .respond f) {pick : Nat} {s₁ : State H} {es : List (Event H)}
    (hs : s.step (.readTask pick) = some (s₁, es)) : Casts o t ⟨s, .readTask pick, s₁, es⟩ s' := by
  have hsweep : ∀ rest, s.readTask ≠ .sweep rest := by simp [hpc]
  have htask := h.task
  simp only [State.step, State.readStep, hpc] at hs
  obtain ⟨⟨s₀, es₀⟩, hsend, hr⟩ := Option.map_eq_some_iff.mp hs
  cases hr
  have hes := sendIgnoring_events hsend
  obtain ⟨c, rfl, hopen, -⟩ := sendIgnoring_eq hsend
  by_cases hf : keeps t f = true
  · rw [hpc, ReadTask.shadow, if_pos hf] at htask
    have hsweep' : ∀ rest, s'.readTask ≠ .sweep rest := by simp [htask]
    obtain ⟨⟨s₀', es₀'⟩, hsend'⟩ := sendIgnoring_room hroom .readTask f
    have hes' := sendIgnoring_events hsend'
    obtain ⟨c', rfl, hopen', -⟩ := sendIgnoring_eq hsend'
    have hs' : s'.step (.readTask 0) =
        some (thenRead .reading ({ s' with writeChannel := c' }, es₀')) := by
      simp only [State.step, State.readStep, htask, hsend', Option.map_some]
    rw [h.channel] at hes'
    refine casts_task hsweep hsweep' hs' { h with
      task := rfl
      channel := hopen'.trans (h.channel.trans hopen.symm) } ?_ ?_ ?_
    · rw [hes]
      split <;> rfl
    · rw [hes']
      split <;> rfl
    · rw [hes, hes']
      split
      · simpa using enqueued_seen f
      · rfl
  · rw [hpc, ReadTask.shadow, if_neg hf] at htask
    refine casts_unseen hsweep { h with
      task := htask
      channel := h.channel.trans hopen.symm } ?_ ?_
    · rw [hes]
      split <;> rfl
    · rw [hes]
      split
      · simpa using enqueued_unseen hf
      · rfl

/-- A PING, a GOAWAY and the end of the teardown are met in the shadow as well. -/
theorem casts_common (h : Shadow o t s s')
    (hpc : (∃ id, s.readTask = .resolvePing id) ∨ s.readTask = .storeGoneAway ∨
      s.readTask = .goAwayClose ∨ s.readTask = .finalClose) {pick : Nat} {s₁ : State H}
    {es : List (Event H)} (hs : s.step (.readTask pick) = some (s₁, es)) :
    Casts o t ⟨s, .readTask pick, s₁, es⟩ s' := by
  have htask := h.task
  rcases hpc with ⟨id, hpc⟩ | hpc | hpc | hpc
  · rw [hpc] at htask
    have htask : s'.readTask = .resolvePing id := htask
    simp only [State.step, State.readStep, hpc] at hs
    obtain ⟨pingMap, pings, heq⟩ := signalPing_eq s id .fired
    obtain ⟨pingMap', pings', heq'⟩ := signalPing_eq s' id .fired
    rw [heq] at hs
    cases hs
    have hs' : s'.step (.readTask 0) =
        some ({ s' with pingMap := pingMap', pings := pings', readTask := .reading }, []) := by
      simp only [State.step, State.readStep, htask, heq']
    exact casts_task (by simp [hpc]) (by simp [htask]) hs' { h with task := rfl } rfl rfl rfl
  · rw [hpc] at htask
    have htask : s'.readTask = .storeGoneAway := htask
    simp only [State.step, State.readStep, hpc] at hs
    cases hs
    have hs' : s'.step (.readTask 0) =
        some ({ s' with goneAway := true, readTask := .goAwayClose }, []) := by
      simp only [State.step, State.readStep, htask]
    exact casts_task (by simp [hpc]) (by simp [htask]) hs' { h with task := rfl, gone := rfl }
      rfl rfl rfl
  · rw [hpc] at htask
    have htask : s'.readTask = .goAwayClose := htask
    simp only [State.step, State.readStep, hpc] at hs
    cases hs
    have hs' : s'.step (.readTask 0) =
        some ({ s' with closed := true, readTask := .lockStreams }, []) := by
      simp only [State.step, State.readStep, htask]
    exact casts_task (by simp [hpc]) (by simp [htask]) hs' { h with task := rfl } rfl rfl rfl
  · rw [hpc] at htask
    have htask : s'.readTask = .finalClose := htask
    simp only [State.step, State.readStep, hpc] at hs
    cases hs
    have hs' : s'.step (.readTask 0) =
        some ({ s' with closed := true, readTask := .finished }, []) := by
      simp only [State.step, State.readStep, htask]
    exact casts_task (by simp [hpc]) (by simp [htask]) hs' { h with task := rfl } rfl rfl rfl

/-! ## The teardown -/

/-- The teardown of the shadow finds the one stream if it is still there. -/
theorem Shadow.present (hreg : Registry s) (hreg' : Registry s') (h : Shadow o t s s')
    (hawaits : s.Awaits o t) : s'.present = List.replicate (s.present.count o) 0 := by
  have hin : o ∈ s.present ↔ s.streams.lookup t = some o := by
    rw [mem_present]
    constructor
    · rintro ⟨k, hk⟩
      rw [← other_id hawaits (hreg.owner k o hk)]
      exact hk
    · exact fun hk => ⟨t, hk⟩
  have hin' : ∀ o', o' ∈ s'.present ↔ o' = 0 ∧ o ∈ s.present := by
    intro o'
    rw [mem_present, hin]
    constructor
    · rintro ⟨k, hk⟩
      rw [h.streams k] at hk
      split at hk
      · obtain ⟨o₁, hlookup, rfl⟩ := Option.map_eq_some_iff.mp hk
        have ho : o₁ = o := awaited_unique hreg hawaits (hreg.owner t o₁ hlookup)
        exact ⟨rfl, ho ▸ hlookup⟩
      · cases hk
    · rintro ⟨rfl, hlookup⟩
      refine ⟨t, ?_⟩
      rw [h.streams t, if_pos rfl, hlookup]
      rfl
  rw [(present_nodup hreg).count]
  split
  · rename_i hmem
    refine List.perm_replicate.mp ?_
    refine (List.perm_ext_iff_of_nodup (present_nodup hreg') (List.nodup_singleton 0)).mpr ?_
    intro o'
    rw [hin', List.mem_singleton]
    exact and_iff_left hmem
  · rename_i hnot
    exact List.eq_nil_iff_forall_not_mem.mpr fun o' ho' => hnot ((hin' o').mp ho').2

theorem casts_lockStreams (hreg : Registry s) (hreg' : Registry s') (h : Shadow o t s s')
    (hpc : s.readTask = .lockStreams) {pick : Nat} {s₁ : State H} {es : List (Event H)}
    (hs : s.step (.readTask pick) = some (s₁, es)) (hbefore : s.Awaits o t) :
    Casts o t ⟨s, .readTask pick, s₁, es⟩ s' := by
  have htask := h.task
  rw [hpc] at htask
  have htask : s'.readTask = .lockStreams := htask
  simp only [State.step, State.readStep, hpc] at hs
  cases hs
  have hs' : s'.step (.readTask 0) = some ({ s' with readTask := .sweep s'.present }, []) := by
    simp only [State.step, State.readStep, htask, State.present]
  exact casts_task (by simp [hpc]) (by simp [htask]) hs' { h with
    task := congrArg ReadTask.sweep (h.present hreg hreg' hbefore) } rfl rfl rfl

theorem count_eraseIdx {rest : List Nat} {pick o₁ : Nat} (h : rest[pick]? = some o₁) (o : Nat) :
    rest.count o = (rest.eraseIdx pick).count o + if o₁ = o then 1 else 0 := by
  obtain ⟨hlt, rfl⟩ := List.getElem?_eq_some_iff.mp h
  have hcut := congrArg (List.count o) (List.take_append_drop pick rest)
  rw [List.drop_eq_getElem_cons hlt, List.count_append, List.count_cons] at hcut
  rw [List.eraseIdx_eq_take_drop_succ, List.count_append, ← hcut]
  simp only [beq_iff_eq]
  omega

/-- The loop of the teardown closes the one stream when it comes to it. -/
theorem casts_sweep (h : Shadow o t s s') {rest : List Nat} (hpc : s.readTask = .sweep rest)
    {pick : Nat} {s₁ : State H} {es : List (Event H)}
    (hs : s.step (.readTask pick) = some (s₁, es)) : Casts o t ⟨s, .readTask pick, s₁, es⟩ s' := by
  have htask := h.task
  rw [hpc] at htask
  have htask : s'.readTask = .sweep (List.replicate (rest.count o) 0) := htask
  simp only [State.step, State.readStep, hpc] at hs
  split at hs
  · rename_i o₁ hget
    cases hs
    have hcount := count_eraseIdx hget o
    by_cases ho : o₁ = o
    · subst ho
      rw [if_pos rfl] at hcount
      rw [hcount] at htask
      have hs' : s'.step (.readTask 0) = some ({ s' with
          objs := s'.objs.modify 0 Stream.closeRemote
          readTask := .sweep (List.replicate ((rest.eraseIdx pick).count o₁) 0) }, []) := by
        simp [State.step, State.readStep, htask, List.replicate_succ]
      refine casts_one hs' { h with task := rfl, objs := ?_ } rfl ?_
      · rw [List.getElem?_modify_eq, h.objs]
        cases s.objs[o₁]? with
        | none => rfl
        | some st => rfl
      · simp [stepEffects, State.sweeps, hpc, htask, hget, List.replicate_succ]
    · rw [if_neg ho] at hcount
      refine casts_none { h with task := ?_, objs := ?_ } rfl ?_
      · rw [htask, hcount]
        rfl
      · rw [h.objs, get_modify_other _ _ ho]
      · simp [effectsOn, stepEffects, State.sweeps, hpc, hget, ho]
  · split at hs
    · rename_i hrest
      cases hs
      subst hrest
      have hs' : s'.step (.readTask 0) = some ({ s' with readTask := .finalClose }, []) := by
        simp [State.step, State.readStep, htask]
      refine casts_one hs' { h with task := rfl } rfl ?_
      simp [stepEffects, State.sweeps, hpc, htask]
    · cases hs

/-- A step of the read task. -/
theorem casts_readTask (hreg : Registry s) (hreg' : Registry s') (h : Shadow o t s s')
    (hroom : s'.writeChannel.HasRoom) {pick : Nat} {s₁ : State H} {es : List (Event H)}
    (hs : s.step (.readTask pick) = some (s₁, es)) (hbefore : s.Awaits o t)
    (hafter : s₁.Awaits o t) : Casts o t ⟨s, .readTask pick, s₁, es⟩ s' := by
  cases hpc : s.readTask with
  | reading | finished | dead =>
      simp only [State.step, State.readStep, hpc] at hs
      cases hs
  | loadLast f => exact casts_loadLast h hpc hs
  | loadGoneAway f => exact casts_loadGoneAway h hpc hs
  | register f => exact casts_register hreg h hpc hs hafter
  | inUse f =>
      have htask := hreg.task
      rw [hpc] at htask
      exact htask.elim
  | storeLast f o₁ => exact casts_storeLast hreg h hpc hs hafter
  | lookup f => exact casts_lookup h hpc hs
  | forward o₁ f => exact casts_forward hreg h hpc hs hbefore
  | respond f => exact casts_respond h hroom hpc hs
  | resolvePing id => exact casts_common h (.inl ⟨id, hpc⟩) hs
  | storeGoneAway => exact casts_common h (.inr (.inl hpc)) hs
  | goAwayClose => exact casts_common h (.inr (.inr (.inl hpc))) hs
  | lockStreams => exact casts_lockStreams hreg hreg' h hpc hs hbefore
  | sweep rest => exact casts_sweep h hpc hs
  | finalClose => exact casts_common h (.inr (.inr (.inr hpc))) hs

end SpdyStream.Session
