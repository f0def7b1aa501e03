/-
  Session/OwnSteps.lean --- the steps that the connection takes by itself.

  Its own steps are those of its tasks and of the calls in progress; the others are left
  to the peer, to the handlers, to whoever holds the connection, and to the clock.  This
  file lists what the calls of `close` and `ping` can do (`CloseStep`,
  `PingStep`), as `Steps.lean` does for the other tasks.
-/
import SpdyStream.Session.Steps

set_option autoImplicit false

namespace SpdyStream.Session

open SpdyStream.Foundation
open SpdyStream.Framing

variable {H : Type}

/-- The connection takes the step by itself.  A write is one of them: what is written
goes out. -/
def Action.isOwn : Action H → Bool
  | .readTask _ | .workerRecv _ | .workerRun _ | .write | .call _ _ | .closeStep _
  | .pingStep _ => true
  | .read _ | .readFail | .readPanic | .writeFail | .invoke _ _ | .cancel _ | .close
  | .closeTimeout _ | .ping | .pingTimeout _ => false

/-! ## The write channel -/

/-- A send that finds room adds one frame. -/
theorem queue_of_send {c c' : Channel H} {f : Frame H} (h : c.send f = .sent c') :
    c'.queue = c.queue ++ [f] := by
  unfold Channel.send at h
  split at h
  · cases h
  · split at h
    · cases h
      rfl
    · cases h

/-- A send whose result is ignored: the frame is in the channel, or the channel is
closed. -/
theorem sendIgnoring_cases {s s' : State H} {src : Source} {f : Frame H} {es : List (Event H)}
    (h : s.sendIgnoring src f = some (s', es)) :
    s.writeChannel.isOpen = false ∧ s' = s ∧ es = [] ∨
    ∃ c, s.writeChannel.send f = .sent c ∧ s' = { s with writeChannel := c } ∧
      es = [.enqueued src f] := by
  unfold State.sendIgnoring at h
  split at h
  · cases h
  · rename_i hclosed
    cases h
    exact .inl ⟨closed_of_send hclosed, rfl, rfl⟩
  · rename_i c hsent
    cases h
    exact .inr ⟨c, hsent, rfl, rfl⟩

/-! ## Calls on streams -/

theorem stepCall_eq {s s' : State H} {k : Nat} {alt : Bool} {es : List (Event H)}
    (h : s.stepCall k alt = some (s', es)) :
    ∃ c st out, s.calls[k]? = some c ∧ s.objs[c.stream]? = some st ∧
      callStep alt c.pc st s.writeChannel = some out ∧
      s' = { s with
        calls := s.calls.set k { c with pc := out.pc }
        objs := s.objs.set c.stream out.stream
        writeChannel := out.channel } ∧
      es = out.effects.map (callEvent k c.stream) := by
  unfold State.stepCall at h
  split at h
  · cases h
  · rename_i c get
    split at h
    · cases h
    · rename_i st obj
      split at h
      · cases h
      · rename_i out outcome
        cases h
        exact ⟨c, st, out, get, obj, outcome, rfl, rfl⟩

/-! ## Calls of `close` -/

/-- The GOAWAY of `close`. -/
def goAwayFrame (lastGood : UInt32) : Frame H :=
  .goAway { lastGoodStreamId := lastGood, status := .ok }

/-- What one operation of a `close` comes to. -/
inductive CloseStep (s : State H) (k : Nat) : State H → List (Event H) → Prop where
  /-- the connection is going away already -/
  | late (get : s.closes[k]? = some .swap) (gone : s.goneAway = true) :
      CloseStep s k { s with goneAway := true, closes := s.closes.set k .returned } []
  | first (get : s.closes[k]? = some .swap) (here : s.goneAway = false) :
      CloseStep s k { s with goneAway := true, closes := s.closes.set k .loadLast } []
  | loads (get : s.closes[k]? = some .loadLast) :
      CloseStep s k { s with closes := s.closes.set k (.sendGoAway s.lastClientStreamId) } []
  | sends (lastGood : UInt32) (c : Channel H) (get : s.closes[k]? = some (.sendGoAway lastGood))
      (send : s.writeChannel.send (goAwayFrame lastGood) = .sent c) :
      CloseStep s k { s with writeChannel := c, closes := s.closes.set k .broadcast }
        [.enqueued (.close k) (goAwayFrame lastGood)]
  | unsent (lastGood : UInt32) (get : s.closes[k]? = some (.sendGoAway lastGood))
      (closed : s.writeChannel.isOpen = false) :
      CloseStep s k { s with closes := s.closes.set k .broadcast } []
  | broadcasts (get : s.closes[k]? = some .broadcast) :
      CloseStep s k { s with closed := true, closes := s.closes.set k .drain } []
  | drained (get : s.closes[k]? = some .drain) (unlocked : s.streamsLocked = false)
      (empty : s.streams.keys = []) :
      CloseStep s k { s with closes := s.closes.set k .returned } []

theorem closeStep_eq {s s' : State H} {k : Nat} {es : List (Event H)}
    (h : s.stepClose k = some (s', es)) : CloseStep s k s' es := by
  unfold State.stepClose at h
  split at h
  · cases h
  · rename_i get
    cases h
    cases hgone : s.goneAway with
    | true => exact .late get hgone
    | false => exact .first get hgone
  · rename_i get
    cases h
    exact .loads get
  · rename_i lastGood get
    obtain ⟨⟨s₁, es₁⟩, hsend, hr⟩ := Option.map_eq_some_iff.mp h
    cases hr
    rcases sendIgnoring_cases hsend with ⟨hclosed, rfl, rfl⟩ | ⟨c, hsent, rfl, rfl⟩
    · exact .unsent lastGood get hclosed
    · exact .sends lastGood c get hsent
  · rename_i get
    cases h
    exact .broadcasts get
  · rename_i get
    split at h
    · rename_i hdrained
      cases h
      exact .drained get hdrained.1 hdrained.2
    · cases h
  · cases h

/-! ## Calls of `ping` -/

/-- What one operation of a `ping` comes to. -/
inductive PingStep (s : State H) (k : Nat) : State H → List (Event H) → Prop where
  | fetches (get : s.pings[k]? = some .fetchId) :
      PingStep s k { s with
        nextPingId := s.nextPingId + 2
        pings := s.pings.set k (.insert s.nextPingId) } []
  | inserts (id : UInt32) (get : s.pings[k]? = some (.insert id)) :
      PingStep s k { s.signalPing id .dropped with
        pingMap := (s.signalPing id .dropped).pingMap.insert id k
        pings := (s.signalPing id .dropped).pings.set k (.send id .waiting) } []
  | sends (id : UInt32) (rx : Oneshot) (c : Channel H) (get : s.pings[k]? = some (.send id rx))
      (send : s.writeChannel.send (.ping { id }) = .sent c) :
      PingStep s k { s with writeChannel := c, pings := s.pings.set k (.wait id rx) }
        [.enqueued (.ping k) (.ping { id })]
  | unsent (id : UInt32) (rx : Oneshot) (get : s.pings[k]? = some (.send id rx))
      (closed : s.writeChannel.isOpen = false) :
      PingStep s k { s with
        pings := s.pings.set k (.returned (.failed .connectionClosed)) } []
  | echoed (id : UInt32) (get : s.pings[k]? = some (.wait id .fired)) :
      PingStep s k { s with pings := s.pings.set k (.returned .ok) } []
  | dropped (id : UInt32) (get : s.pings[k]? = some (.wait id .dropped)) :
      PingStep s k { s with
        pings := s.pings.set k (.returned (.failed .connectionClosed)) } []

theorem pingStep_eq {s s' : State H} {k : Nat} {es : List (Event H)}
    (h : s.stepPing k = some (s', es)) : PingStep s k s' es := by
  unfold State.stepPing at h
  split at h
  · cases h
  · rename_i get
    cases h
    exact .fetches get
  · rename_i id get
    cases h
    exact .inserts id get
  · rename_i id rx get
    split at h
    · cases h
    · rename_i hclosed
      cases h
      exact .unsent id rx get (closed_of_send hclosed)
    · rename_i c hsent
      cases h
      exact .sends id rx c get hsent
  · cases h
  · rename_i id get
    cases h
    exact .echoed id get
  · rename_i id get
    cases h
    exact .dropped id get
  · cases h

/-! ## The write task -/

/-- The write task takes the first frame of its channel. -/
theorem write_step {s s' : State H} {es : List (Event H)} (h : s.write = some (s', es)) :
    ∃ f rest, s.writeChannel.queue = f :: rest ∧ s.writeChannel.isOpen = true ∧
      s' = { s with writeChannel := { s.writeChannel with queue := rest } } ∧ es = [] := by
  unfold State.write at h
  split at h
  · cases h
  · rename_i f rest hqueue
    split at h
    · rename_i hopen
      cases h
      exact ⟨f, rest, hqueue, hopen, rfl, rfl⟩
    · cases h

end SpdyStream.Session
