/-
  Session/ShutDown.lean --- the end of a connection.

  Once the read loop has been left the read task goes through its teardown and nothing
  brings it back.  So the connection comes to where all streams are closed, `close_tx`
  holds `true`, and every `read_data` has returned.  A `ping` is not told: the teardown
  leaves `ping_map`, and the call waits for its timeout.
-/
import SpdyStream.Session.AtRest

set_option autoImplicit false

namespace SpdyStream.Session

open SpdyStream.Foundation
open SpdyStream.Framing

variable {H : Type}

/-! ## No way back -/

/-- The read loop is left, or about to be: the peer has sent GOAWAY, the input has ended,
or a frame was wrong. -/
def ReadTask.leaving : ReadTask H → Bool
  | .storeGoneAway | .goAwayClose | .lockStreams | .sweep _ | .finalClose | .finished => true
  | _ => false

/-- A step leaves `close_tx` and `gone_away` as they are, or sets them. -/
structure ClosedMove (s s' : State H) : Prop where
  stays : s.closed = true → s'.closed = true
  why : s'.closed = true →
    s.closed = true ∨ s'.readTask.leaving = true ∨ .broadcast ∈ s.closes
  told : s'.readTask = .finished → s.readTask = .finished ∨ s'.closed = true
  leaving : s.readTask.leaving = true → s'.readTask.leaving = true
  gone : s'.goneAway = true →
    s.goneAway = true ∨ s'.readTask.leaving = true ∨ s.closes ≠ []

theorem closedMove_same {s s' : State H} (hclosed : s'.closed = s.closed)
    (hgone : s'.goneAway = s.goneAway) (htask : s'.readTask = s.readTask) : ClosedMove s s' :=
  ⟨fun h => hclosed.trans h, fun h => .inl (hclosed.symm.trans h), fun h => .inl (htask ▸ h),
    fun h => htask ▸ h, fun h => .inl (hgone.symm.trans h)⟩

/-- A step of the read task that neither ends it nor is part of its end. -/
theorem closedMove_reading {s s' : State H} (hclosed : s'.closed = s.closed)
    (hgone : s'.goneAway = s.goneAway) (hnext : s'.readTask ≠ .finished)
    (hbefore : s.readTask.leaving = false) : ClosedMove s s' :=
  ⟨fun h => hclosed.trans h, fun h => .inl (hclosed.symm.trans h), fun h => absurd h hnext,
    fun h => absurd (hbefore.symm.trans h) Bool.false_ne_true, fun h => .inl (hgone.symm.trans h)⟩

theorem dispatch_ne_finished (f : Frame H) : dispatch f ≠ .finished := by
  cases f with
  | synStream g =>
      simp only [dispatch]
      split
      · simp
      · simp
  | ping p =>
      simp only [dispatch]
      split
      · simp
      · simp
  | _ => simp [dispatch]

theorem missing_ne_finished (f : Frame H) : missing f ≠ .finished := by
  cases f with
  | _ => simp [missing]

theorem readTask_closed {s s' : State H} {pick : Nat} {es : List (Event H)}
    (h : s.readStep pick = some (s', es)) : ClosedMove s s' := by
  cases task_step h with
  | routes holds move =>
      cases move with
      | plain _ before _ _ _ => cases holds.symm.trans before
      | answer _ _ _ pc _ _ => cases holds.symm.trans (ReadTask.holdsFrame_of_answer pc)
      | missed f pc _ => exact closedMove_reading rfl rfl (missing_ne_finished f) (by rw [pc]; rfl)
      | stale _ pc _ | checked _ pc _ | refused _ pc _ | passed _ pc _ | taken _ pc _
      | accept _ pc _ | publish _ _ pc | found _ _ pc _ | deliver _ _ pc _ =>
          exact closedMove_reading rfl rfl (by simp) (by rw [pc]; rfl)
  | inUse _ pc send | responds _ pc send =>
      obtain ⟨⟨s₁, es₁⟩, hsend, hr⟩ := Option.map_eq_some_iff.mp send
      obtain ⟨c, rfl, -⟩ := sendIgnoring_eq hsend
      cases hr
      exact closedMove_reading rfl rfl (by simp) (by rw [pc]; rfl)
  | resolves id' pc =>
      obtain ⟨pingMap, pings, heq⟩ := signalPing_eq s id' .fired
      rw [heq]
      exact closedMove_reading rfl rfl (by simp) (by rw [pc]; rfl)
  | goesAway pc => exact ⟨id, .inl, by simp, fun _ => rfl, fun _ => .inr (.inl rfl)⟩
  | locks pc | sweeps _ _ pc _ | swept pc => exact ⟨id, .inl, by simp, fun _ => rfl, .inl⟩
  | closes pc | ends pc =>
      exact ⟨fun _ => rfl, fun _ => .inr (.inl rfl), fun _ => .inr rfl, fun _ => rfl, .inl⟩

theorem closed_move {s s' : State H} {a : Action H} {es : List (Event H)}
    (hs : s.step a = some (s', es)) : ClosedMove s s' := by
  cases a with
  | read f =>
      simp only [State.step, State.readFrame] at hs
      split at hs
      · rename_i hpc
        cases hs
        exact closedMove_reading rfl rfl (dispatch_ne_finished f) (by rw [hpc]; rfl)
      · cases hs
  | readFail | readPanic =>
      simp only [State.step, State.readEnds] at hs
      split at hs
      · rename_i hpc
        cases hs
        exact closedMove_reading rfl rfl (by simp) (by rw [hpc]; rfl)
      · cases hs
  | readTask pick => exact readTask_closed hs
  | workerRecv i =>
      cases workerRecv_move hs with
      | _ => exact closedMove_same rfl rfl rfl
  | workerRun i =>
      cases workerRun_move hs with
      | _ => exact closedMove_same rfl rfl rfl
  | write =>
      obtain ⟨f, rest, -, -, rfl, -⟩ := write_step hs
      exact closedMove_same rfl rfl rfl
  | writeFail | close | ping =>
      cases hs
      exact closedMove_same rfl rfl rfl
  | invoke o r =>
      simp only [State.step, State.invoke] at hs
      split at hs
      · cases hs
        exact closedMove_same rfl rfl rfl
      · cases hs
  | call k alt =>
      obtain ⟨c, st, out, -, -, -, rfl, -⟩ := stepCall_eq hs
      exact closedMove_same rfl rfl rfl
  | cancel k =>
      simp only [State.step, State.cancelCall] at hs
      split at hs
      · cases hs
      · split at hs
        · cases hs
        · split at hs
          · cases hs
          · cases hs
            exact closedMove_same rfl rfl rfl
  | closeStep k =>
      cases closeStep_eq hs with
      | broadcasts get =>
          exact ⟨fun _ => rfl, fun _ => .inr (.inr (List.mem_of_getElem? get)), fun _ => .inr rfl,
            id, .inl⟩
      | late get _ | first get _ =>
          refine ⟨id, .inl, .inl, id, fun _ => .inr (.inr ?_)⟩
          exact List.ne_nil_of_mem (List.mem_of_getElem? get)
      | _ => exact closedMove_same rfl rfl rfl
  | closeTimeout k =>
      simp only [State.step, State.timeoutClose] at hs
      split at hs
      · cases hs
        exact closedMove_same rfl rfl rfl
      · cases hs
  | pingStep k =>
      cases pingStep_eq hs with
      | inserts id get =>
          obtain ⟨pingMap, pings, heq⟩ := signalPing_eq s id .dropped
          rw [heq]
          exact closedMove_same rfl rfl rfl
      | _ => exact closedMove_same rfl rfl rfl
  | pingTimeout k =>
      simp only [State.step, State.timeoutPing] at hs
      split at hs
      · cases hs
        exact closedMove_same rfl rfl rfl
      · cases hs

variable {guard : List (Event H) → State H → Action H → Prop} {evs : List (Event H)} {s : State H}

/-- `wait_closed` returns when the read task is done. -/
theorem closed_of_finished (h : (connection H).Run guard evs s) (hdone : s.readTask = .finished) :
    s.closed = true := by
  refine h.invariant (I := fun _ s => s.readTask = .finished → s.closed = true) ?_ ?_ hdone
  · intro hdone
    cases hdone
  · intro evs es s s' a _ _ hs ih hdone
    have hmove := closed_move hs
    rcases hmove.told hdone with hbefore | hclosed
    · exact hmove.stays (ih hbefore)
    · exact hclosed

/-! ## The end -/

/-- The connection has ended. -/
structure ShutDown (s : State H) : Prop where
  finished : s.readTask = .finished
  /-- `wait_closed` returns -/
  told : s.closed = true
  /-- every stream ever accepted is closed on the peer's side -/
  ended : ∀ o k, s.ids[o]? = some k → s.isRemoteClosed o = true
  /-- every frame has gone to its stream, and every frame to the peer has been written -/
  idle : (∀ i, (s.workers i).queue = [] ∧ (s.workers i).todo = []) ∧ s.writeChannel.queue = []
  /-- no reader waits; a call that has not returned is a write on a stream without a
  reply -/
  calls : ∀ c ∈ s.calls, c.pc.isReturned = true ∨
    c.pc.waits = true ∧ s.repliedFlag c.stream = false
  /-- a `close` that has not returned waits for streams that no RST_STREAM has removed -/
  closes : ∀ c ∈ s.closes, c = .returned ∨ c = .drain ∧ s.streams.keys ≠ []
  /-- a `ping` that has not returned waits for an echo, until its timeout -/
  pings : ∀ p ∈ s.pings, (∃ r, p = .returned r) ∨ ∃ id, p = .wait id .waiting

theorem shutDown_of_atRest (h : (connection H).Run guard evs s) (hrest : AtRest s)
    (hleaving : s.readTask.leaving = true) : ShutDown s := by
  have hdone : s.readTask = .finished := by
    rcases hrest.readTask with hpc | hpc | hpc
    · rw [hpc] at hleaving
      cases hleaving
    · exact hpc
    · rw [hpc] at hleaving
      cases hleaving
  have hended : ∀ o k, s.ids[o]? = some k → s.isRemoteClosed o = true := fun o k hk => by
    rcases unswept_run h (show s.readTask.unswept = some [] by rw [hdone]; rfl) hk with
      hclosed | hmem
    · exact hclosed
    · cases hmem
  refine ⟨hdone, closed_of_finished h hdone, hended, ⟨hrest.workers, hrest.written⟩,
    fun c hc => ?_, hrest.closes, hrest.pings⟩
  obtain ⟨st, hst, hcall⟩ := hrest.calls c hc
  have hclosed : st.remoteClosed = true :=
    (isRemoteClosed_of_get hst).symm.trans (hended c.stream _ (ids_of_get hst))
  generalize hpc : c.pc = pc at hcall
  cases hcall with
  | returned r => exact .inl rfl
  | unreplied data fin replied => exact .inr ⟨rfl, (repliedFlag_of_get hst).trans replied⟩
  | noData _ here | behind _ _ here =>
      rw [hclosed] at here
      cases here

end SpdyStream.Session
