/-
  Session/WriteOrder.lean --- the write channel over a whole run.

  All parts of the connection send through one bounded channel, and one task writes what
  comes out of it.  So what is written is what the channel has accepted, in that order,
  behind the SETTINGS that `serve` puts there first.
-/
import SpdyStream.Session.OneStream
import SpdyStream.Session.OwnSteps

set_option autoImplicit false

namespace SpdyStream.Session

open SpdyStream.Foundation
open SpdyStream.Framing

variable {H : Type}

/-! ## The write channel in one step -/

/-- The frame that the write channel has accepted. -/
def Event.acceptedFrame : Event H → List (Frame H)
  | .enqueued _ f => [f]
  | _ => []

/-- What a step does to the write channel. -/
inductive ChannelMove (s : State H) (a : Action H) (s' : State H) (es : List (Event H)) : Prop where
  | same (channel : s'.writeChannel = s.writeChannel) (unwritten : a ≠ .write)
      (silent : es.flatMap Event.acceptedFrame = [])
  | puts (f : Frame H) (send : s.writeChannel.send f = .sent s'.writeChannel)
      (unwritten : a ≠ .write) (events : es.flatMap Event.acceptedFrame = [f])
  | writes (f : Frame H) (rest : List (Frame H)) (action : a = .write)
      (queue : s.writeChannel.queue = f :: rest) (isOpen : s.writeChannel.isOpen = true)
      (state : s' = { s with writeChannel := { s.writeChannel with queue := rest } })
      (events : es = [])
  | fails (action : a = .writeFail)
      (state : s' = { s with writeChannel := { queue := [], isOpen := false } })
      (events : es = [])

theorem sendIgnoring_channel {s s' s'' : State H} {a : Action H} {src : Source} {f : Frame H}
    {es : List (Event H)} (ha : a ≠ .write) (hsend : s.sendIgnoring src f = some (s', es))
    (hs'' : s''.writeChannel = s'.writeChannel) : ChannelMove s a s'' es := by
  rcases sendIgnoring_cases hsend with ⟨-, rfl, rfl⟩ | ⟨c, hsent, rfl, rfl⟩
  · exact .same hs'' ha rfl
  · exact .puts f (by rw [hs'']; exact hsent) ha rfl

/-- An operation of a call leaves the channel, or puts one frame into it. -/
theorem callStep_channel {alt : Bool} {pc : CallPc H} {st : Stream H} {c : Channel H}
    {out : CallOutcome H} (h : callStep alt pc st c = some out) (k o : Nat) :
    out.channel = c ∧ (out.effects.map (callEvent k o)).flatMap Event.acceptedFrame = [] ∨
    ∃ f, pc.sends st = some f ∧ c.send f = .sent out.channel ∧
      (out.effects.map (callEvent k o)).flatMap Event.acceptedFrame = [f] := by
  have hsend : ∀ {f : Frame H} {next : CallPc H}, pc.sends st = some f →
      sendThen c st f next = some out →
      out.channel = c ∧ (out.effects.map (callEvent k o)).flatMap Event.acceptedFrame = [] ∨
      ∃ f, pc.sends st = some f ∧ c.send f = .sent out.channel ∧
        (out.effects.map (callEvent k o)).flatMap Event.acceptedFrame = [f] := by
    intro f next hsends h
    unfold sendThen at h
    split at h
    · cases h
    · cases h
      exact .inl ⟨rfl, rfl⟩
    · rename_i hsent
      cases h
      exact .inr ⟨f, hsends, hsent, rfl⟩
  have htry : ∀ (blocked : Bool) (f : Frame H) (next : CallPc H), pc.sends st = some f →
      out = tryThen blocked c st f next →
      out.channel = c ∧ (out.effects.map (callEvent k o)).flatMap Event.acceptedFrame = [] ∨
      ∃ f, pc.sends st = some f ∧ c.send f = .sent out.channel ∧
        (out.effects.map (callEvent k o)).flatMap Event.acceptedFrame = [f] := by
    rintro blocked f next hsends rfl
    unfold tryThen
    split
    · exact .inl ⟨rfl, rfl⟩
    · exact .inl ⟨rfl, rfl⟩
    · rename_i hsent
      split
      · exact .inl ⟨rfl, rfl⟩
      · exact .inr ⟨f, hsends, hsent, rfl⟩
  cases call_step h with
  | replySend _ _ send | writeSend _ _ send | resetSend _ send => exact hsend rfl send
  | pollSend _ | shutdownSend => exact htry _ _ _ rfl rfl
  | _ => exact .inl ⟨rfl, rfl⟩

theorem acceptedFrame_rejectedAtOnce (f : Frame H) :
    (rejectedAtOnce f).flatMap Event.acceptedFrame = [] :=
  flatMap_rejectedAtOnce _ (fun _ _ => rfl) f

theorem readTask_channel {s s' : State H} {pick : Nat} {es : List (Event H)}
    (h : s.readStep pick = some (s', es)) : ChannelMove s (.readTask pick) s' es := by
  have hne : Action.readTask pick ≠ (.write : Action H) := by simp
  cases task_step h with
  | inUse _ _ send | responds _ _ send =>
      obtain ⟨⟨s₁, es₁⟩, hsend, hr⟩ := Option.map_eq_some_iff.mp send
      cases hr
      exact sendIgnoring_channel hne hsend rfl
  | resolves id' pc =>
      obtain ⟨pingMap, pings, heq⟩ := signalPing_eq s id' .fired
      rw [heq]
      exact .same rfl hne rfl
  | routes holds move =>
      cases move with
      | plain _ before _ _ _ => cases holds.symm.trans before
      | answer _ _ _ pc _ _ => cases holds.symm.trans (ReadTask.holdsFrame_of_answer pc)
      | _ => exact .same rfl hne rfl
  | _ => exact .same rfl hne rfl

theorem channel_move {s s' : State H} {a : Action H} {es : List (Event H)}
    (hs : s.step a = some (s', es)) : ChannelMove s a s' es := by
  cases a with
  | read f =>
      simp only [State.step, State.readFrame] at hs
      split at hs
      · cases hs
        exact .same rfl (by simp) (acceptedFrame_rejectedAtOnce f)
      · cases hs
  | readFail | readPanic =>
      simp only [State.step, State.readEnds] at hs
      split at hs
      · cases hs
        exact .same rfl (by simp) rfl
      · cases hs
  | readTask pick => exact readTask_channel hs
  | workerRecv i =>
      cases workerRecv_move hs with
      | _ => exact .same rfl (by simp) rfl
  | workerRun i =>
      cases workerRun_move hs with
      | _ => exact .same rfl (by simp) rfl
  | write =>
      obtain ⟨f, rest, hqueue, hopen, rfl, rfl⟩ := write_step hs
      exact .writes f rest rfl hqueue hopen rfl rfl
  | writeFail =>
      cases hs
      exact .fails rfl rfl rfl
  | invoke o r =>
      simp only [State.step, State.invoke] at hs
      split at hs
      · cases hs
        exact .same rfl (by simp) rfl
      · cases hs
  | call k alt =>
      obtain ⟨c, st, out, get, obj, outcome, rfl, rfl⟩ := stepCall_eq hs
      rcases callStep_channel outcome k c.stream with ⟨hchannel, hmute⟩ | ⟨f, -, hsent, hone⟩
      · exact .same hchannel (by simp) hmute
      · exact .puts f hsent (by simp) hone
  | cancel k =>
      simp only [State.step, State.cancelCall] at hs
      split at hs
      · cases hs
      · split at hs
        · cases hs
        · split at hs
          · cases hs
          · cases hs
            exact .same rfl (by simp) rfl
  | close | ping =>
      cases hs
      exact .same rfl (by simp) rfl
  | closeStep k =>
      cases closeStep_eq hs with
      | sends lastGood c get send => exact .puts _ send (by simp) rfl
      | _ => exact .same rfl (by simp) rfl
  | closeTimeout k =>
      simp only [State.step, State.timeoutClose] at hs
      split at hs
      · cases hs
        exact .same rfl (by simp) rfl
      · cases hs
  | pingStep k =>
      cases pingStep_eq hs with
      | inserts id get =>
          obtain ⟨pingMap, pings, heq⟩ := signalPing_eq s id .dropped
          rw [heq]
          exact .same rfl (by simp) rfl
      | sends id rx c get send => exact .puts _ send (by simp) rfl
      | _ => exact .same rfl (by simp) rfl
  | pingTimeout k =>
      simp only [State.step, State.timeoutPing] at hs
      split at hs
      · cases hs
        exact .same rfl (by simp) rfl
      · cases hs

variable {guard : List (Event H) → State H → Action H → Prop} {evs : List (Event H)} {s : State H}

/-- Nothing is left in a channel whose receiver is gone. -/
theorem queue_of_closed (h : (connection H).Run guard evs s)
    (hclosed : s.writeChannel.isOpen = false) : s.writeChannel.queue = [] := by
  refine h.invariant (I := fun _ s => s.writeChannel.isOpen = false → s.writeChannel.queue = [])
    ?_ ?_ hclosed
  · intro hclosed
    cases hclosed
  · intro evs es s s' a _ _ hs ih hclosed
    cases channel_move hs with
    | same channel _ _ =>
        rw [channel] at hclosed ⊢
        exact ih hclosed
    | puts f send _ _ =>
        rw [send_isOpen send, open_of_send send] at hclosed
        cases hclosed
    | writes f rest _ _ isOpen state _ =>
        rw [state] at hclosed
        cases isOpen.symm.trans hclosed
    | fails _ state _ =>
        rw [state]

/-! ## What is written -/

/-- The frame that the write task takes in a step. -/
def writtenIn (t : TakenStep H) : List (Frame H) :=
  match t.action with
  | .write => t.before.writeChannel.queue.take 1
  | _ => []

/-- The frames that the write channel has accepted in some steps. -/
def acceptedIn (hist : List (TakenStep H)) : List (Frame H) :=
  hist.flatMap fun t => t.events.flatMap Event.acceptedFrame

theorem writtenIn_other {t : TakenStep H} (h : t.action ≠ .write) : writtenIn t = [] := by
  unfold writtenIn
  split
  · exact absurd ‹_› h
  · rfl

theorem acceptedIn_events (hist : List (TakenStep H)) :
    acceptedIn hist = (hist.flatMap Machine.Taken.events).flatMap Event.acceptedFrame := by
  rw [acceptedIn, List.flatMap_assoc]

/-- What the channel accepts is a reply, DATA, a reset, a PING or a GOAWAY. -/
theorem accepted_kind (h : (connection H).Run guard evs s) {f : Frame H}
    (hf : f ∈ evs.flatMap Event.acceptedFrame) : isResponse f = true ∨ isNotice f = true := by
  refine h.invariant (I := fun evs _ => f ∈ evs.flatMap Event.acceptedFrame →
    isResponse f = true ∨ isNotice f = true) ?_ ?_ hf
  · intro hf
    cases hf
  · intro evs es s s' a hrun _ hs ih hf
    rw [List.flatMap_append, List.mem_append] at hf
    rcases hf with hold | hnew
    · exact ih hold
    · obtain ⟨e, he, hfe⟩ := List.mem_flatMap.mp hnew
      cases e with
      | enqueued src g =>
          cases List.mem_singleton.mp hfe
          cases calls_step hrun hs with
          | call k alt c st out action get obj outcome state events =>
              rw [events] at he
              obtain ⟨eff, heff, heq⟩ := List.mem_map.mp he
              cases eff with
              | delivered d => cases heq
              | enqueued g =>
                  cases heq
                  have hsends := ((callStep_keeps outcome).sent f heff).1
                  cases hpc : c.pc with
                  | replySend _ _ | writeSend _ _ | pollSend _ | shutdownSend =>
                      rw [hpc] at hsends
                      cases hsends
                      exact .inl rfl
                  | resetSend _ =>
                      rw [hpc] at hsends
                      cases hsends
                      exact .inr rfl
                  | _ =>
                      rw [hpc] at hsends
                      cases hsends
          | cancel _ _ _ _ _ _ _ _ _ events | invoke _ _ _ _ events =>
              rw [events] at he
              simp at he
          | other _ _ sent _ => exact .inr (sent src f he).2
      | _ => cases hfe

/-- What is written and what waits is what was accepted. -/
theorem written_run {hist : List (TakenStep H)} (h : (connection H).History Machine.free hist s) :
    (hist.flatMap writtenIn <+: .settings initialSettings :: acceptedIn hist) ∧
      (s.writeChannel.isOpen = true → hist.flatMap writtenIn ++ s.writeChannel.queue =
        .settings initialSettings :: acceptedIn hist) := by
  refine h.invariant (I := fun hist s =>
    (hist.flatMap writtenIn <+: .settings initialSettings :: acceptedIn hist) ∧
      (s.writeChannel.isOpen = true → hist.flatMap writtenIn ++ s.writeChannel.queue =
        .settings initialSettings :: acceptedIn hist)) ?_ ?_
  · exact ⟨List.nil_prefix, fun _ => rfl⟩
  · rintro hist t hhist - hs ⟨hpre, hwait⟩
    have hwritten : (hist ++ [t]).flatMap writtenIn = hist.flatMap writtenIn ++ writtenIn t := by
      rw [List.flatMap_append, List.flatMap_singleton]
    have haccepted : acceptedIn (hist ++ [t]) =
        acceptedIn hist ++ t.events.flatMap Event.acceptedFrame := by
      rw [acceptedIn, List.flatMap_append, List.flatMap_singleton]
      rfl
    rw [hwritten, haccepted]
    cases channel_move hs with
    | same channel unwritten silent =>
        rw [writtenIn_other unwritten, silent, channel, List.append_nil, List.append_nil]
        exact ⟨hpre, hwait⟩
    | puts f send unwritten events =>
        rw [writtenIn_other unwritten, events, List.append_nil]
        have hnow := hwait (open_of_send send)
        refine ⟨hpre.trans (List.prefix_append _ [f]), fun _ => ?_⟩
        rw [queue_of_send send, ← List.append_assoc, hnow]
        rfl
    | writes f rest action queue isOpen state events =>
        have hone : writtenIn t = [f] := by
          rw [writtenIn, action]
          simp only [queue]
          rfl
        have hnow := hwait isOpen
        rw [queue] at hnow
        rw [hone, events, List.flatMap_nil, List.append_nil, ← hnow, state]
        refine ⟨⟨rest, ?_⟩, fun _ => ?_⟩
        · rw [List.append_assoc]
          rfl
        · rw [List.append_assoc]
          rfl
    | fails action state events =>
        rw [writtenIn_other (by rw [action]; simp), events, List.flatMap_nil, List.append_nil,
          List.append_nil]
        refine ⟨hpre, fun hopen => ?_⟩
        rw [state] at hopen
        cases hopen

/-- What is written on a connection. -/
structure WriteOrder (hist : List (TakenStep H)) (s : State H) : Prop where
  /-- what is written is what was accepted, in this order, with the SETTINGS first -/
  written : hist.flatMap writtenIn <+: .settings initialSettings :: acceptedIn hist
  /-- while the write task runs, nothing else is missing than what is still in the channel -/
  waiting : s.writeChannel.isOpen = true →
    hist.flatMap writtenIn ++ s.writeChannel.queue =
      .settings initialSettings :: acceptedIn hist
  /-- there are no other SETTINGS, and no SYN_STREAM, HEADERS or WINDOW_UPDATE -/
  kinds : ∀ f ∈ acceptedIn hist, isResponse f = true ∨ isNotice f = true

/-- **Frames are written in the order they are accepted.** -/
theorem written_inOrder {hist : List (TakenStep H)}
    (h : (connection H).History Machine.free hist s) :
    WriteOrder hist s := by
  obtain ⟨hwritten, hwaiting⟩ := written_run h
  refine ⟨hwritten, hwaiting, fun f hf => accepted_kind h.run ?_⟩
  rwa [← acceptedIn_events]

/-- A PING of the peer is echoed behind the SETTINGS. -/
theorem written_inOrder_echo : ∃ hist s, (connection Unit).History Machine.free hist s ∧
    hist.flatMap writtenIn = [.settings initialSettings, .ping { id := 1 }] ∧
    WriteOrder hist s := by
  obtain ⟨hist, s, h, hcheck⟩ := Machine.exists_history_of_trace (connection Unit) Machine.free
    [.read (.ping { id := 1 }), .readTask 0, .write, .write]
    (fun hist _ => decide (hist.flatMap writtenIn =
      [.settings initialSettings, .ping { id := 1 }]))
    (by decide +kernel)
  exact ⟨hist, s, h, of_decide_eq_true hcheck, written_inOrder h⟩

end SpdyStream.Session
