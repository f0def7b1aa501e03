/-
  Session/Echo.lean --- the PINGs of the peer.

  The peer numbers its PINGs with odd ids, the connection its own with even ids.  So of the
  PINGs that go out those with an odd id are the echoes, and nothing but the read task sends
  them: their ids are the first of those that were read, in the same order.
-/
import SpdyStream.Session.AtRest
import SpdyStream.Session.GoAway
import SpdyStream.Session.OwnSteps
import SpdyStream.Session.Pings
import SpdyStream.Session.WriteOrder

set_option autoImplicit false

namespace SpdyStream.Session

open SpdyStream.Foundation
open SpdyStream.Framing

variable {H : Type}

/-! ## What is read -/

theorem frameRead_quiet {ev : Event H} (h : ev.isQuiet = true) : Event.frameRead ev = [] := by
  cases ev with
  | read _ => cases h
  | _ => rfl

theorem read_step {s s' : State H} {f : Frame H}
    {es : List (Event H)} (h : s.step (.read f) = some (s', es)) :
    s.readTask = .reading ∧ es.flatMap Event.frameRead = [f] := by
  simp only [State.step, State.readFrame] at h
  split at h
  · rename_i hpc
    cases h
    refine ⟨hpc, ?_⟩
    rw [List.flatMap_cons, flatMap_rejectedAtOnce Event.frameRead (fun _ _ => rfl)]
    rfl
  · cases h

/-- No other step reads a frame. -/
theorem frameRead_other {s s' : State H} {a : Action H}
    {es : List (Event H)} (ha : ∀ f, a ≠ .read f) (h : s.step a = some (s', es)) :
    es.flatMap Event.frameRead = [] := by
  have hmove : ReadMove s s' es → es.flatMap Event.frameRead = [] := by
    intro hmove
    cases hmove with
    | answer _ _ _ _ _ events =>
        exact flatMap_quiet (fun _ he => frameRead_quiet he) (answer_quiet events)
    | _ => rfl
  have hworker : ∀ {i : Fin nWorkers}, WorkerMove s i s' es → es.flatMap Event.frameRead = [] := by
    intro i hmove
    cases hmove with
    | _ => rfl
  cases a with
  | read f => exact absurd rfl (ha f)
  | readFail | readPanic => exact hmove (readEnds_move ⟨rfl, rfl⟩ h)
  | readTask pick => exact hmove (readStep_move h)
  | workerRecv i => exact hworker (workerRecv_move h)
  | workerRun i => exact hworker (workerRun_move h)
  | _ => exact flatMap_quiet (fun _ he => frameRead_quiet he) (aside_step rfl h).aside.quiet

/-! ## Odd ids -/

/-- The id of a PING that the peer started. -/
def peerPing : Frame H → List UInt32
  | .ping p => if p.id % 2 = 1 then [p.id] else []
  | _ => []

/-- The ids of the PINGs among some frames. -/
def peerPings (fs : List (Frame H)) : List UInt32 := fs.flatMap peerPing

/-- A PING of the peer's is owed its echo, and nothing else is owed a PING. -/
theorem peerPings_owed (evs : List (Event H)) :
    peerPings (evs.flatMap Event.owed) = peerPings (evs.flatMap Event.frameRead) := by
  rw [peerPings, peerPings, List.flatMap_assoc, List.flatMap_assoc]
  refine List.flatMap_congr fun ev _ => ?_
  cases ev with
  | read f =>
      cases f with
      | ping p =>
          by_cases hodd : p.id % 2 = 1
          · simp [Event.owed, Event.frameRead, peerPing, hodd]
          · simp [Event.owed, Event.frameRead, peerPing, hodd]
      | _ => rfl
  | lookedUp f o =>
      cases f with
      | data _ =>
          cases o with
          | none => rfl
          | some _ => rfl
      | _ => rfl
  | _ => rfl

theorem peerPing_sends {pc : CallPc H} {st : Stream H} {f : Frame H} (h : pc.sends st = some f) :
    peerPing f = [] := by
  cases pc with
  | replySend _ _ | writeSend _ _ | pollSend _ | shutdownSend | resetSend _ =>
      cases h
      rfl
  | _ => cases h

theorem peerPing_even {p : PingFrame} (h : p.id % 2 = 0) : peerPing (.ping p : Frame H) = [] := by
  rw [peerPing, h]
  rfl

/-! ## Who sends them -/

/-- Who puts a frame into the channel: the read task, or who sends no PING of the peer's. -/
inductive SentBy (s : State H) : Source → Frame H → Prop where
  | readTask (f : Frame H) : SentBy s .readTask f
  | other (src : Source) (f : Frame H) (silent : peerPing f = []) (ne : src ≠ .readTask) :
      SentBy s src f
  /-- a `ping` sends the id that it has taken -/
  | ping (k : Nat) (id : UInt32) (rx : Oneshot) (get : s.pings[k]? = some (.send id rx)) :
      SentBy s (.ping k) (.ping { id })

/-- No frame is accepted where the step has accepted none. -/
theorem not_enqueued {es : List (Event H)} (hsilent : es.flatMap Event.acceptedFrame = [])
    {src : Source} {f : Frame H} : .enqueued src f ∉ es := by
  intro hmem
  have hnone := List.flatMap_eq_nil_iff.mp hsilent _ hmem
  cases hnone

theorem sentBy_step {s s' : State H} {a : Action H} {es : List (Event H)}
    (hs : s.step a = some (s', es)) {src : Source} {f : Frame H} (hmem : .enqueued src f ∈ es) :
    SentBy s src f := by
  cases a with
  | read g =>
      simp only [State.step, State.readFrame] at hs
      split at hs
      · cases hs
        have hsilent : (Event.read g :: rejectedAtOnce g).flatMap Event.acceptedFrame = [] :=
          acceptedFrame_rejectedAtOnce g
        exact absurd hmem (not_enqueued hsilent)
      · cases hs
  | readFail | readPanic =>
      simp only [State.step, State.readEnds] at hs
      split at hs
      · cases hs
        cases hmem
      · cases hs
  | readTask pick =>
      cases readStep_move hs with
      | answer g c _ pc channel events =>
          rcases events with ⟨rfl, -⟩ | rfl
          · cases hmem
          · cases List.mem_singleton.mp hmem
            exact .readTask _
      | _ => simp at hmem
  | workerRecv i =>
      cases workerRecv_move hs with
      | _ => simp at hmem
  | workerRun i =>
      cases workerRun_move hs with
      | _ => simp at hmem
  | write =>
      obtain ⟨_, _, -, -, -, rfl⟩ := write_step hs
      cases hmem
  | writeFail | close | ping =>
      cases hs
      cases hmem
  | invoke o r =>
      simp only [State.step, State.invoke] at hs
      split at hs
      · cases hs
        simp at hmem
      · cases hs
  | call k alt =>
      obtain ⟨c, st, out, -, -, houtcome, -, rfl⟩ := stepCall_eq hs
      rcases callStep_channel houtcome k c.stream with ⟨-, hsilent⟩ | ⟨g, hsends, -, hone⟩
      · exact absurd hmem (not_enqueued hsilent)
      · have hf : f ∈ [g] := hone ▸ List.mem_flatMap.mpr ⟨_, hmem, List.mem_singleton_self f⟩
        cases List.mem_singleton.mp hf
        refine .other src f (peerPing_sends hsends) ?_
        obtain ⟨eff, -, heff⟩ := List.mem_map.mp hmem
        cases eff with
        | enqueued g =>
            cases heff
            simp
        | delivered d => cases heff
  | cancel k =>
      simp only [State.step, State.cancelCall] at hs
      split at hs
      · cases hs
      · split at hs
        · cases hs
        · split at hs
          · cases hs
          · cases hs
            cases hmem
  | closeStep k =>
      cases closeStep_eq hs with
      | sends lastGood c get send =>
          cases List.mem_singleton.mp hmem
          exact .other _ _ rfl (by simp)
      | _ => cases hmem
  | closeTimeout k =>
      simp only [State.step, State.timeoutClose] at hs
      split at hs
      · cases hs
        cases hmem
      · cases hs
  | pingStep k =>
      cases pingStep_eq hs with
      | sends id rx c get send =>
          cases List.mem_singleton.mp hmem
          exact .ping k id rx get
      | _ => cases hmem
  | pingTimeout k =>
      simp only [State.step, State.timeoutPing] at hs
      split at hs
      · cases hs
        cases hmem
      · cases hs

/-! ## The echoes -/

variable {guard : List (Event H) → State H → Action H → Prop} {evs : List (Event H)} {s : State H}

/-- Of the PINGs that are accepted those of the peer's are answers. -/
theorem peerPings_accepted (h : (connection H).Run guard evs s) :
    peerPings (evs.flatMap Event.acceptedFrame) = peerPings (evs.flatMap Event.answered) := by
  obtain ⟨hist, hhist, hevs⟩ := h.history
  rw [peerPings, peerPings, List.flatMap_assoc, List.flatMap_assoc]
  refine List.flatMap_congr fun ev hev => ?_
  rw [← hevs] at hev
  obtain ⟨t, ht, hev⟩ := List.mem_flatMap.mp hev
  obtain ⟨pre, post, heq⟩ := List.append_of_mem ht
  obtain ⟨hpre, -, hs⟩ := hhist.split heq
  cases ev with
  | enqueued src f =>
      cases sentBy_step hs hev with
      | readTask => rfl
      | other _ _ silent ne =>
          cases src with
          | readTask => exact absurd rfl ne
          | _ => simpa [Event.acceptedFrame, Event.answered] using silent
      | ping k id rx get =>
          have heven : id % 2 = 0 := (allocated hpre).even ((allocated hpre).own k _ id get rfl)
          simpa [Event.acceptedFrame, Event.answered] using peerPing_even heven
  | _ => rfl

/-- Where nothing is accepted nothing is answered. -/
theorem answered_of_silent {es : List (Event H)} (h : es.flatMap Event.acceptedFrame = []) :
    es.flatMap Event.answered = [] := by
  refine List.flatMap_eq_nil_iff.mpr fun ev hev => ?_
  cases ev with
  | enqueued src f => exact absurd hev (not_enqueued h)
  | _ => rfl

/-- A closed channel accepts nothing. -/
theorem silent_of_closed {s s' : State H} {a : Action H} {es : List (Event H)}
    (hs : s.step a = some (s', es)) (hclosed : s.writeChannel.isOpen = false) :
    es.flatMap Event.acceptedFrame = [] := by
  cases channel_move hs with
  | same _ _ silent => exact silent
  | puts f send _ _ => cases hclosed.symm.trans (open_of_send send)
  | writes _ _ _ _ _ _ events | fails _ _ events =>
      rw [events]
      rfl

/-- The answers that were sent are the first of those that were owed. -/
theorem answered_isPrefix (h : (connection H).Run guard evs s) :
    evs.flatMap Event.answered <+: evs.flatMap Event.owed := by
  refine h.invariant (I := fun evs _ => evs.flatMap Event.answered <+: evs.flatMap Event.owed)
    (List.prefix_refl _) ?_
  intro evs es s s' a hrun _ hs hbegins
  rw [List.flatMap_append, List.flatMap_append]
  cases hopen : s.writeChannel.isOpen with
  | true =>
      have hone := answers_step hs hopen
      rw [answers_once hrun hopen, List.append_assoc, hone, ← List.append_assoc]
      exact List.prefix_append _ _
  | false =>
      rw [answered_of_silent (silent_of_closed hs hopen), List.append_nil]
      exact hbegins.trans (List.prefix_append _ _)

/-- The PINGs of the peer's that are accepted are the first that were read, in order. -/
theorem peerPings_inOrder (h : (connection H).Run guard evs s) :
    peerPings (evs.flatMap Event.acceptedFrame) <+: peerPings (evs.flatMap Event.frameRead) := by
  rw [peerPings_accepted h, ← peerPings_owed]
  exact (answered_isPrefix h).flatMap peerPing

/-- And they are all of them where nothing is left to do. -/
theorem peerPings_settled (h : (connection H).Reached evs s)
    (hsettled : (connection H).Settled Action.isOwn s) (hopen : s.writeChannel.isOpen = true) :
    peerPings (evs.flatMap Event.acceptedFrame) = peerPings (evs.flatMap Event.frameRead) := by
  rw [peerPings_accepted h, (workedOff_atRest h ((settled_iff h).mp hsettled)).answered hopen,
    peerPings_owed]

end SpdyStream.Session
