/-
  Session/GoAway.lean --- `close` against the registration of new streams.

  `close` sets `gone_away` and then loads `last_client_stream_id`; the read task
  looks at `gone_away` and only later stores the id of the stream it has let in.
  What GOAWAY announces holds unless the load falls between the two.
-/
import SpdyStream.Session.Delivery

set_option autoImplicit false

namespace SpdyStream.Session

open SpdyStream.Foundation
open SpdyStream.Framing

variable {H : Type}

/-! ## Answers -/

/-- What the peer is owed: the answer to a SYN_STREAM that is rejected, to DATA of
an unknown stream, and to a PING of its own. -/
def Event.owed : Event H → List (Frame H)
  | .rejected f status => [rstFor f status]
  | .lookedUp (.data df) none => [.rstStream { streamId := df.streamId, status := .invalidStream }]
  | .read (.ping p) => if p.id % 2 = 1 then [.ping p] else []
  | _ => []

/-- What the read task has sent. -/
def Event.answered : Event H → List (Frame H)
  | .enqueued .readTask f => [f]
  | _ => []

theorem owed_read (f : Frame H) :
    Event.owed (.read f) ++ (rejectedAtOnce f).flatMap Event.owed =
      (dispatch f).answer.toList := by
  cases f with
  | synStream g =>
      simp only [rejectedAtOnce, dispatch]
      split
      · rfl
      · rfl
  | ping p =>
      simp only [Event.owed, dispatch]
      split
      · rfl
      · rfl
  | _ => rfl

theorem owed_missing (f : Frame H) :
    Event.owed (.lookedUp f none) = (missing f).answer.toList := by
  cases f with
  | _ => rfl

theorem channel_step {s s' : State H} {a : Action H} {es : List (Event H)}
    (hs : s.step a = some (s', es)) (h : s'.writeChannel.isOpen = true) :
    s.writeChannel.isOpen = true := by
  cases step_kind hs with
  | aside ha kind => exact ha.channel h
  | read f pc state events =>
      rw [state] at h
      exact h
  | move hmove =>
      cases hmove with
      | plain still before next loop mute => exact still.channel ▸ h
      | answer f c es pc channel events => exact channel ▸ h
      | _ => exact h
  | worker i hmove action =>
      cases hmove with
      | _ => exact h

/-- What is owed after a step is what was owed and has not been sent. -/
theorem answers_step {s s' : State H} {a : Action H} {es : List (Event H)}
    (hs : s.step a = some (s', es)) (hopen : s.writeChannel.isOpen = true) :
    s.readTask.answer.toList ++ es.flatMap Event.owed =
      es.flatMap Event.answered ++ s'.readTask.answer.toList := by
  cases step_kind hs with
  | aside ha kind =>
      have howed : es.flatMap Event.owed = [] := by
        refine flatMap_quiet (fun e he => ?_) ha.quiet
        cases e with
        | read _ | rejected _ _ | lookedUp _ _ => cases he
        | _ => rfl
      have hanswered : es.flatMap Event.answered = [] := by
        refine List.flatMap_eq_nil_iff.mpr fun e he => ?_
        cases kind with
        | call k alt c st out action get obj outcome state events =>
            rw [events] at he
            obtain ⟨eff, -, rfl⟩ := List.mem_map.mp he
            cases eff with
            | enqueued f => rfl
            | delivered d => rfl
        | cancel k c st st' pc action get obj outcome state events =>
            rw [events] at he
            cases he
        | invoke o r action mem state events =>
            rw [events] at he
            rw [List.mem_singleton.mp he]
            rfl
        | apart h =>
            rcases h.events e he with ⟨k, g, rfl⟩ | ⟨k, p, rfl⟩
            · rfl
            · rfl
      rw [ha.readTask, howed, hanswered]
      exact List.append_nil _
  | read f pc state events =>
      have hnone := flatMap_rejectedAtOnce Event.answered (fun _ _ => rfl) f
      rw [state, events, pc, List.flatMap_cons, List.flatMap_cons, hnone, owed_read]
      rfl
  | move hmove =>
      cases hmove with
      | plain still before next loop mute =>
          rw [mute.1, mute.2]
          rfl
      | answer f c es pc channel events =>
          rcases events with ⟨-, hclosed⟩ | rfl
          · rw [hopen] at hclosed
            cases hclosed
          · rw [pc]
            rfl
      | missed f pc miss =>
          rw [pc, List.flatMap_singleton, owed_missing]
          rfl
      | stale f pc _ | checked f pc _ | refused f pc _ | passed f pc _ | taken f pc _
      | accept f pc _ | publish f _ pc | found f _ pc _ | deliver _ f pc _ =>
          rw [pc]
          simp [ReadTask.answer, Event.owed, Event.answered]
  | worker i hmove action =>
      cases hmove with
      | _ => exact List.append_nil _

variable {guard : List (Event H) → State H → Action H → Prop} {evs : List (Event H)} {s : State H}

/-- While the write channel is open, every answer that is owed is sent once, in
order. -/
theorem answers_once (h : (connection H).Run guard evs s) (hopen : s.writeChannel.isOpen = true) :
    evs.flatMap Event.owed = evs.flatMap Event.answered ++ s.readTask.answer.toList := by
  refine h.invariant (I := fun evs s => s.writeChannel.isOpen = true →
    evs.flatMap Event.owed = evs.flatMap Event.answered ++ s.readTask.answer.toList) ?_ ?_ hopen
  · intro _
    rfl
  · intro evs es s s' a _ _ hs ih hopen
    have hbefore := channel_step hs hopen
    have hone := answers_step hs hbefore
    rw [List.flatMap_append, List.flatMap_append, ih hbefore, List.append_assoc, hone,
      List.append_assoc]

/-! ## Rejections -/

theorem last_mono {s s' : State H} {a : Action H} {es : List (Event H)} (hreg : Registry s)
    (hs : s.step a = some (s', es)) : s.lastClientStreamId ≤ s'.lastClientStreamId := by
  rcases last_step hs with hsame | ⟨f, o, hpc, hlast⟩
  · rw [hsame]
    exact UInt32.le_refl _
  · have htask := hreg.task
    rw [hpc] at htask
    rw [hlast]
    exact UInt32.le_of_lt htask.1

/-- A SYN_STREAM of a client's id is rejected because its id is not new, or because
the connection is going away. -/
theorem rejected_why (h : (connection H).Run guard evs s) {f : SynStreamFrame H}
    {status : RstStatus} (he : .rejected f status ∈ evs) (hodd : f.streamId % 2 = 1) :
    status = .refusedStream ∨ f.streamId ≤ s.lastClientStreamId := by
  refine h.invariant (I := fun evs s => .rejected f status ∈ evs →
    status = .refusedStream ∨ f.streamId ≤ s.lastClientStreamId) ?_ ?_ he
  · intro he
    cases he
  · intro evs es s s' a hrun _ hs ih he
    have hreg := registry_run hrun
    rcases List.mem_append.mp he with he | he
    · exact (ih he).imp_right fun hle => UInt32.le_trans hle (last_mono hreg hs)
    · cases step_kind hs with
      | aside ha kind => cases ha.quiet _ he
      | read g pc state events =>
          rw [events] at he
          rcases List.mem_cons.mp he with he | he
          · cases he
          · obtain ⟨g, rfl, hid, heq⟩ := mem_rejectedAtOnce he
            cases heq
            grind
      | move hmove =>
          cases hmove with
          | plain still before next loop mute => cases he
          | answer g c es pc channel events => cases answer_quiet events _ he
          | stale g pc le =>
              cases List.mem_singleton.mp he
              exact .inr le
          | refused g pc gone =>
              cases List.mem_singleton.mp he
              exact .inl rfl
          | taken g pc mem => exact absurd mem (hreg.not_taken pc)
          | _ => simp at he
      | worker i hmove action =>
          cases hmove with
          | _ => simp at he

/-! ## Registration and `gone_away` -/

/-- The read task has let a SYN_STREAM in and not stored its id yet. -/
def ReadTask.registering : ReadTask H → Bool
  | .register _ | .inUse _ | .storeLast _ _ => true
  | _ => false

theorem ReadTask.not_registering_of_isPlain {t : ReadTask H} (h : t.isPlain = true) :
    t.registering = false := by
  cases t with
  | register _ | inUse _ | storeLast _ _ => cases h
  | _ => rfl

theorem gone_step {s s' : State H} {a : Action H} {es : List (Event H)}
    (hs : s.step a = some (s', es)) (h : s.goneAway = true) : s'.goneAway = true := by
  cases step_kind hs with
  | aside ha kind => exact ha.gone h
  | read f pc state events =>
      rw [state]
      exact h
  | move hmove =>
      cases hmove with
      | plain still before next loop mute => exact still.gone h
      | _ => exact h
  | worker i hmove action =>
      cases hmove with
      | _ => exact h

/-- Once `gone_away` is set and no registration is under way, none begins and the
counter stays. -/
theorem no_registration_step {s s' : State H} {a : Action H} {es : List (Event H)}
    (hs : s.step a = some (s', es)) (hgone : s.goneAway = true)
    (hidle : s.readTask.registering = false) :
    s'.readTask.registering = false ∧ s'.lastClientStreamId = s.lastClientStreamId := by
  cases step_kind hs with
  | aside ha kind => exact ⟨by rw [ha.readTask, hidle], ha.last⟩
  | read f pc state events =>
      rw [state]
      refine ⟨?_, rfl⟩
      rcases dispatch_cases f with ⟨hplain, -⟩ | ⟨g, rfl, -, hnext⟩ | ⟨-, hnext⟩
      · exact ReadTask.not_registering_of_isPlain hplain
      · rw [hnext]
        rfl
      · rw [hnext]
        rfl
  | move hmove =>
      cases hmove with
      | plain still before next loop mute =>
          exact ⟨ReadTask.not_registering_of_isPlain next, still.last⟩
      | missed f pc miss => exact ⟨ReadTask.not_registering_of_isPlain (missing_isPlain f), rfl⟩
      | passed f pc here =>
          rw [here] at hgone
          cases hgone
      | taken f pc _ | accept f pc _ | publish f _ pc =>
          rw [pc] at hidle
          cases hidle
      | _ => exact ⟨rfl, rfl⟩
  | worker i hmove action =>
      cases hmove with
      | _ => exact ⟨hidle, rfl⟩

/-! ## Calls of `close` -/

theorem closes_step {s s' : State H} {a : Action H} {es : List (Event H)}
    (hs : s.step a = some (s', es)) : CloseMove s a s' es := by
  cases step_kind hs with
  | aside ha kind =>
      cases kind with
      | call k alt c st out action get obj outcome state events =>
          refine closeMove_same (by rw [state]) fun k' g hg => ?_
          rw [events] at hg
          obtain ⟨eff, -, heq⟩ := List.mem_map.mp hg
          cases eff with
          | enqueued f => cases heq
          | delivered d => cases heq
      | cancel k c st st' pc action get obj outcome state events =>
          exact closeMove_same (by rw [state]) (by simp [events])
      | invoke o r action mem state events =>
          exact closeMove_same (by rw [state]) (by simp [events])
      | apart h => exact h.close
  | read f pc state events =>
      refine closeMove_same (by rw [state]) fun k g hg => ?_
      rw [events] at hg
      rcases List.mem_cons.mp hg with hg | hg
      · cases hg
      · obtain ⟨_, -, -, heq⟩ := mem_rejectedAtOnce hg
        cases heq
  | move hmove =>
      cases hmove with
      | plain still before next loop mute => exact closeMove_same still.closes (by simp)
      | answer f c es pc channel events =>
          refine closeMove_same rfl fun k g hg => ?_
          rcases events with ⟨rfl, -⟩ | rfl
          · cases hg
          · cases List.mem_singleton.mp hg
      | _ => exact closeMove_same rfl (by simp)
  | worker i hmove action =>
      cases hmove with
      | _ => exact closeMove_same rfl (by simp)

/-- A call of `close` that has still to send its GOAWAY has set `gone_away`. -/
theorem gone_of_announces (h : (connection H).Run guard evs s) {c : CloseCall}
    (hc : c ∈ s.closes) (hann : c.announces = true) : s.goneAway = true := by
  refine h.invariant (I := fun _ s => ∀ c ∈ s.closes, c.announces = true → s.goneAway = true)
    ?_ ?_ c hc hann
  · intro c hc
    cases hc
  · intro evs es s s' a _ _ hs ih c hc hann
    cases closes_step hs with
    | same closes silent => exact gone_step hs (ih c (closes c hc hann) hann)
    | swap closes gone silent => exact gone
    | load k action get closes silent =>
        exact gone_step hs (ih _ (List.mem_of_getElem? get) rfl)
    | send lastGood mem closes announced => exact gone_step hs (ih _ mem rfl)

/-! ## GOAWAY -/

/-- No call of `close` loads the counter while a registration is under way. -/
def State.loadSettled (s : State H) : Action H → Bool
  | .closeStep k => s.closes[k]? ≠ some .loadLast || !s.readTask.registering
  | _ => true

/-- The condition under which GOAWAY announces the truth. -/
def LoadSettled (_ : List (Event H)) (s : State H) (a : Action H) : Prop :=
  s.loadSettled a = true

instance (evs : List (Event H)) (s : State H) (a : Action H) :
    Decidable (LoadSettled evs s a) := inferInstanceAs (Decidable (_ = true))

/-- A call of `close` has sent this last good id, or is about to. -/
def Announced (evs : List (Event H)) (s : State H) (lastGood : UInt32) : Prop :=
  .sendGoAway lastGood ∈ s.closes ∨
    ∃ k g, .enqueued (.close k) (.goAway g) ∈ evs ∧ g.lastGoodStreamId = lastGood

/-- Once it is announced the counter stands still, and nothing is let in. -/
theorem announced_settled (h : (connection H).Run LoadSettled evs s) {lastGood : UInt32}
    (hann : Announced evs s lastGood) :
    s.goneAway = true ∧ s.readTask.registering = false ∧ s.lastClientStreamId = lastGood := by
  refine h.invariant (I := fun evs s => ∀ lastGood, Announced evs s lastGood →
    s.goneAway = true ∧ s.readTask.registering = false ∧ s.lastClientStreamId = lastGood)
    ?_ ?_ lastGood hann
  · rintro lastGood (hmem | ⟨k, g, hmem, -⟩)
    · cases hmem
    · cases hmem
  · intro evs es s s' a hrun hguard hs ih lastGood hann
    have hold : Announced evs s lastGood →
        s'.goneAway = true ∧ s'.readTask.registering = false ∧
          s'.lastClientStreamId = lastGood := fun hann => by
      obtain ⟨hgone, hidle, hlast⟩ := ih lastGood hann
      obtain ⟨hidle', hlast'⟩ := no_registration_step hs hgone hidle
      exact ⟨gone_step hs hgone, hidle', hlast'.trans hlast⟩
    have hevents : (∀ k g, .enqueued (.close k) (.goAway g) ∉ es) →
        (∃ k g, .enqueued (.close k) (.goAway g) ∈ evs ++ es ∧ g.lastGoodStreamId = lastGood) →
        Announced evs s lastGood := by
      rintro silent ⟨k, g, hmem, hg⟩
      rcases List.mem_append.mp hmem with hmem | hmem
      · exact .inr ⟨k, g, hmem, hg⟩
      · exact absurd hmem (silent k g)
    cases closes_step hs with
    | same closes silent =>
        refine hold ?_
        rcases hann with hmem | hsent
        · exact .inl (closes _ hmem rfl)
        · exact hevents silent hsent
    | swap closes gone silent =>
        refine hold ?_
        rcases hann with hmem | hsent
        · rcases closes _ hmem rfl with hmem | heq
          · exact .inl hmem
          · cases heq
        · exact hevents silent hsent
    | load k action get closes silent =>
        rcases hann with hmem | hsent
        · rcases closes _ hmem with hmem | heq
          · exact hold (.inl hmem)
          · cases heq
            have hgone := gone_of_announces hrun (List.mem_of_getElem? get) rfl
            have hidle : s.readTask.registering = false := by
              rw [action] at hguard
              simpa [LoadSettled, State.loadSettled, get] using hguard
            obtain ⟨hidle', hlast'⟩ := no_registration_step hs hgone hidle
            exact ⟨gone_step hs hgone, hidle', hlast'⟩
        · exact hold (hevents silent hsent)
    | send lastGood' mem closes announced =>
        refine hold ?_
        rcases hann with hmem | ⟨k, g, hmem, hg⟩
        · exact .inl (closes _ hmem rfl)
        · rcases List.mem_append.mp hmem with hmem | hmem
          · exact .inr ⟨k, g, hmem, hg⟩
          · rw [← hg, announced k g hmem]
            exact .inl mem

/-- What the peer may conclude from a GOAWAY. -/
structure GoAwayKept (evs : List (Event H)) (s : State H) (g : GoAwayFrame) : Prop where
  /-- no stream above its last good id has been registered -/
  registered : ∀ k ∈ evs.flatMap Event.acceptedId, k ≤ g.lastGoodStreamId
  /-- nor handed to the handler -/
  handed : ∀ o ∈ evs.flatMap Event.handlerStarted, ∀ k, s.ids[o]? = some k →
    k ≤ g.lastGoodStreamId
  /-- a SYN_STREAM above it is still to be decided or has been refused -/
  refused : ∀ f ∈ evs.flatMap Event.synRead, f.streamId % 2 = 1 →
    g.lastGoodStreamId < f.streamId →
    f ∈ s.readTask.deciding ∨ .rejected f .refusedStream ∈ evs
  /-- it is rejected with no other status -/
  status : ∀ f status, .rejected f status ∈ evs → f.streamId % 2 = 1 →
    g.lastGoodStreamId < f.streamId → status = .refusedStream
  /-- while the write channel is open, what is rejected is answered -/
  answered : s.writeChannel.isOpen = true →
    evs.flatMap Event.owed = evs.flatMap Event.answered ++ s.readTask.answer.toList

/-- **GOAWAY.**  If no call of `close` loads the counter while a registration is
under way, then every GOAWAY that `close` sends holds before and after it. -/
theorem goAway_kept (h : (connection H).Run LoadSettled evs s) {k : Nat} {g : GoAwayFrame}
    (hsent : .enqueued (.close k) (.goAway g) ∈ evs) : GoAwayKept evs s g := by
  have hreg := registry_run h
  obtain ⟨-, hidle, hlast⟩ := announced_settled h (.inr ⟨k, g, hsent, rfl⟩)
  have hids : ∀ k' ∈ s.ids, k' ≤ g.lastGoodStreamId := by
    intro k' hk'
    have hbound := hreg.bounded k' hk'
    rw [← hlast]
    cases hpc : s.readTask with
    | storeLast f o =>
        rw [hpc] at hidle
        cases hidle
    | _ =>
        rw [hpc] at hbound
        exact hbound
  have hstatus : ∀ f status, .rejected f status ∈ evs → f.streamId % 2 = 1 →
      g.lastGoodStreamId < f.streamId → status = .refusedStream := by
    intro f status he hodd hlt
    rcases rejected_why h he hodd with hwhy | hle
    · exact hwhy
    · rw [hlast] at hle
      exact absurd hlt (UInt32.not_lt.mpr hle)
  refine
    { registered := ?_
      handed := fun o _ k' hk' => hids k' (List.mem_of_getElem? hk')
      refused := ?_
      status := hstatus
      answered := answers_once h }
  · rw [accepted_ids h]
    exact hids
  · intro f hf hodd hlt
    rw [decided_once h, List.mem_append] at hf
    rcases hf with hf | hf
    · right
      obtain ⟨e, he, hfe⟩ := List.mem_flatMap.mp hf
      cases e with
      | accepted o f' =>
          cases List.mem_singleton.mp hfe
          have hle := hids _ (List.mem_of_getElem? (accepted_id h he))
          exact absurd hlt (UInt32.not_lt.mpr hle)
      | rejected f' status =>
          cases List.mem_singleton.mp hfe
          rw [hstatus f status he hodd hlt] at he
          exact he
      | _ => cases hfe
    · exact .inl hf

/-- A stream is registered, `close` sends GOAWAY, and the next SYN_STREAM is
refused. -/
theorem goAway_kept_refusesNext : ∃ evs s, (connection Unit).Run LoadSettled evs s ∧
    .rejected (plainSyn 3 0) .refusedStream ∈ evs ∧
    GoAwayKept evs s { lastGoodStreamId := 1, status := .ok } := by
  obtain ⟨evs, s, h, hcheck⟩ := Machine.exists_run_of_exec (connection Unit) LoadSettled
    (registers (plainSyn 1 0) ++ Action.close :: List.replicate 3 (Action.closeStep 0) ++
      Action.read (.synStream (plainSyn 3 0)) :: List.replicate 3 (Action.readTask 0))
    (fun evs _ => decide (.rejected (plainSyn 3 0) .refusedStream ∈ evs ∧
      .enqueued (.close 0) (.goAway { lastGoodStreamId := 1, status := .ok }) ∈ evs))
    (by decide +kernel)
  obtain ⟨hrejected, hsent⟩ := of_decide_eq_true hcheck
  exact ⟨evs, s, h, hrejected, goAway_kept h hsent⟩

/-- The read task lets a SYN_STREAM in before `close` sets `gone_away`, and stores
its id after `close` has loaded the counter: GOAWAY announces 0, and stream 1 is
served. -/
theorem goAway_not_kept : ¬ ∀ evs (s : State Unit) k g, (connection Unit).Reached evs s →
    .enqueued (.close k) (.goAway g) ∈ evs → GoAwayKept evs s g := by
  intro hall
  let actions : List (Action Unit) :=
    Action.read (.synStream (plainSyn 1 0)) :: List.replicate 2 (Action.readTask 0) ++
      Action.close :: List.replicate 3 (Action.closeStep 0) ++
      List.replicate 3 (Action.readTask 0) ++
      applies (.synStream (plainSyn 1 0))
  obtain ⟨evs, s, h, hcheck⟩ := Machine.exists_run_of_exec (connection Unit) Machine.free actions
    (fun evs _ => decide (1 ∈ evs.flatMap Event.acceptedId ∧
      .enqueued (.close 0) (.goAway { lastGoodStreamId := 0, status := .ok }) ∈ evs))
    (by decide +kernel)
  obtain ⟨haccepted, hsent⟩ := of_decide_eq_true hcheck
  have hle := (hall evs s 0 _ h hsent).registered 1 haccepted
  exact absurd hle (by decide)

end SpdyStream.Session
