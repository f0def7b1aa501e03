/-
  Session/Backlog.lean --- how much a connection can hold.

  All channels are bounded.  So the frames and payloads that have been taken in and not
  given out again are bounded too: a stream is behind what was read for it by what its
  worker's channel and the read task hold, its handler by what its data channel holds, and
  the peer by what the write channel holds.  The map of the streams and `ping_map` have no
  bound.
-/
import SpdyStream.Session.Delivery
import SpdyStream.Session.WriteOrder

set_option autoImplicit false

namespace SpdyStream.Session

open SpdyStream.Foundation
open SpdyStream.Framing

variable {H : Type}

/-! ## Room -/

/-- No channel holds more than it has room for. -/
structure Bounded (s : State H) : Prop where
  written : s.writeChannel.queue.length ≤ writeCapacity
  workers : ∀ i, (s.workers i).queue.length ≤ workerCapacity
  data : ∀ o, (s.payloadsOf o).length ≤ dataCapacity

theorem room_of_send {c c' : Channel H} {f : Frame H} (h : c.send f = .sent c') :
    c.queue.length < writeCapacity := by
  unfold Channel.send at h
  split at h
  · cases h
  · split at h
    · assumption
    · cases h

theorem written_bounded {s s' : State H} {a : Action H} {es : List (Event H)}
    (hs : s.step a = some (s', es)) (h : s.writeChannel.queue.length ≤ writeCapacity) :
    s'.writeChannel.queue.length ≤ writeCapacity := by
  cases channel_move hs with
  | same channel unwritten silent =>
      rw [channel]
      exact h
  | puts f send unwritten events =>
      rw [queue_of_send send, List.length_append]
      exact room_of_send send
  | writes f rest action queue isOpen state events =>
      rw [queue, List.length_cons] at h
      rw [state]
      exact Nat.le_of_succ_le h
  | fails action state events =>
      rw [state]
      exact Nat.zero_le _

/-- A worker's channel is set. -/
theorem update_bounded {s : State H} {i : Fin nWorkers} {w : Worker H}
    (h : ∀ i, (s.workers i).queue.length ≤ workerCapacity)
    (hw : w.queue.length ≤ workerCapacity) :
    ∀ j, (Function.update s.workers i w j).queue.length ≤ workerCapacity := by
  intro j
  by_cases hj : j = i
  · subst hj
    rw [Function.update_self]
    exact hw
  · rw [Function.update_of_ne hj]
    exact h j

theorem readTask_bounded {s s' : State H} {pick : Nat} {es : List (Event H)}
    (hs : s.readStep pick = some (s', es)) (h : ∀ i, (s.workers i).queue.length ≤ workerCapacity) :
    ∀ i, (s'.workers i).queue.length ≤ workerCapacity := by
  cases task_step hs with
  | routes holds move =>
      cases move with
      | plain _ before _ _ _ => cases holds.symm.trans before
      | deliver o f pc worker =>
          subst worker
          simp only [State.readStep, pc, State.forward] at hs
          split at hs
          · rename_i hroom
            refine update_bounded h ?_
            rw [List.length_append]
            exact hroom
          · cases hs
      | _ => exact h
  | inUse _ _ send | responds _ _ send =>
      obtain ⟨⟨s₁, es₁⟩, hsend, hr⟩ := Option.map_eq_some_iff.mp send
      obtain ⟨c, rfl, -⟩ := sendIgnoring_eq hsend
      cases hr
      exact h
  | resolves id' pc =>
      obtain ⟨pingMap, pings, heq⟩ := signalPing_eq s id' .fired
      rw [heq]
      exact h
  | _ => exact h

theorem workers_bounded {s s' : State H} {a : Action H} {es : List (Event H)}
    (hs : s.step a = some (s', es)) (h : ∀ i, (s.workers i).queue.length ≤ workerCapacity) :
    ∀ i, (s'.workers i).queue.length ≤ workerCapacity := by
  cases a with
  | read f =>
      simp only [State.step, State.readFrame] at hs
      split at hs
      · cases hs
        exact h
      · cases hs
  | readFail | readPanic =>
      simp only [State.step, State.readEnds] at hs
      split at hs
      · cases hs
        exact h
      · cases hs
  | readTask pick => exact readTask_bounded hs h
  | workerRecv i =>
      cases workerRecv_move hs with
      | take m rest idle queue worker =>
          subst worker
          refine update_bounded h ?_
          have hi := h i
          rw [queue, List.length_cons] at hi
          exact Nat.le_of_succ_le hi
      | _ => exact update_bounded h (h i)
  | workerRun i =>
      cases workerRun_move hs with
      | take m rest idle queue worker =>
          subst worker
          refine update_bounded h ?_
          have hi := h i
          rw [queue, List.length_cons] at hi
          exact Nat.le_of_succ_le hi
      | _ => exact update_bounded h (h i)
  | _ =>
      rw [(aside_step rfl hs).aside.workers]
      exact h

variable {guard : List (Event H) → State H → Action H → Prop} {evs : List (Event H)} {s : State H}

/-- A step keeps no payload of a stream, or one for which there is room. -/
theorem kept_room (hrun : (connection H).Run guard evs s) {s' : State H} {a : Action H}
    {es : List (Event H)} (hs : s.step a = some (s', es)) (o : Nat) :
    es.flatMap (Event.keptFor o) = [] ∨
      (es.flatMap (Event.keptFor o)).length = 1 ∧ (s.payloadsOf o).length < dataCapacity := by
  cases stream_step hrun hs o with
  | call j alt pc st out action get obj outcome now calls events =>
      refine .inl (List.flatMap_eq_nil_iff.mpr fun e he => ?_)
      rw [events] at he
      obtain ⟨eff, -, rfl⟩ := List.mem_map.mp he
      cases eff with
      | enqueued f => rfl
      | delivered d => rfl
  | cancel j pc pc' st st' action get obj outcome now calls events
  | invoke j r action fresh now calls events | sweep st sweeps obj now calls events
  | make f pc before now calls events =>
      rw [events]
      exact .inl rfl
  | work i op rest st action stream todo obj now calls events =>
      rw [events]
      cases op with
      | pushData data =>
          by_cases hroom : st.dataQueue.length < dataCapacity
          · refine .inr ⟨?_, ?_⟩
            · simp [WorkerOp.shown, Event.keptFor, hroom]
            · rw [State.payloadsOf, obj]
              exact hroom
          · refine .inl ?_
            simp [WorkerOp.shown, Event.keptFor, hroom]
      | _ => exact .inl rfl
  | other same calls unswept silent sent =>
      refine .inl (List.flatMap_eq_nil_iff.mpr fun e he => ?_)
      have hnot := silent e he
      cases e with
      | pushed o' data kept =>
          have hne : o' ≠ o := of_decide_eq_false hnot
          cases kept with
          | true => exact if_neg hne
          | false => rfl
      | _ => rfl

theorem bounded_run (h : (connection H).Run guard evs s) : Bounded s := by
  refine h.invariant (I := fun _ s => Bounded s) ⟨?_, fun _ => ?_, fun _ => ?_⟩ ?_
  · exact show 1 ≤ writeCapacity by decide
  · exact Nat.zero_le _
  · exact Nat.zero_le _
  · intro evs es s s' a hrun _ hs ih
    refine ⟨written_bounded hs ih.written, workers_bounded hs ih.workers, fun o => ?_⟩
    have hlen := congrArg List.length (payloads_step hs o)
    rw [List.length_append, List.length_append] at hlen
    have hold := ih.data o
    rcases kept_room hrun hs o with hnone | ⟨hone, hroom⟩
    · rw [hnone, List.length_nil] at hlen
      omega
    · omega

/-! ## Backlogs -/

/-- The frames that were accepted and not written are at most those for which the channel
has room: when the write task fails it drops what waits, and nothing is accepted after. -/
theorem unwritten_bounded {hist : List (TakenStep H)}
    (h : (connection H).History Machine.free hist s) :
    (.settings initialSettings :: acceptedIn hist).length ≤
      (hist.flatMap writtenIn).length + writeCapacity := by
  refine h.invariant (I := fun hist _ => (.settings initialSettings :: acceptedIn hist).length ≤
    (hist.flatMap writtenIn).length + writeCapacity) ?_ ?_
  · exact show 1 ≤ 0 + writeCapacity by decide
  · intro hist t hhist _ hs ih
    have hnow : (connection H).History Machine.free (hist ++ [t]) t.after :=
      hhist.step trivial hs
    cases hopen : t.after.writeChannel.isOpen with
    | true =>
        have hwaiting := congrArg List.length ((written_run hnow).2 hopen)
        have hroom := (bounded_run hnow.run).written
        rw [List.length_append] at hwaiting
        omega
    | false =>
        -- a step that leaves the channel closed neither puts a frame into it nor takes one
        have hstill : acceptedIn (hist ++ [t]) = acceptedIn hist := by
          rw [acceptedIn, List.flatMap_append, List.flatMap_singleton]
          cases channel_move hs with
          | same channel unwritten silent => exact (congrArg _ silent).trans (List.append_nil _)
          | puts f send unwritten events =>
              rw [send_isOpen send, open_of_send send] at hopen
              cases hopen
          | writes f rest action queue isOpen state events | fails action state events =>
              rw [events]
              exact List.append_nil _
        rw [hstill, List.flatMap_append, List.length_append]
        rw [List.length_cons] at ih ⊢
        omega

/-- How far a stream, its handler and the peer are behind, at most. -/
structure Backlog (hist : List (TakenStep H)) (s : State H) : Prop where
  bounded : Bounded s
  /-- the frames of a stream that no worker has taken up: a full channel, and one in the
  hands of the read task -/
  frames : ∀ o f₀, .accepted o f₀ ∈ hist.flatMap Machine.Taken.events →
    (.synStream f₀ :: (hist.flatMap Machine.Taken.events).flatMap (Event.foundFor o)).length ≤
      ((hist.flatMap Machine.Taken.events).flatMap (Event.appliedTo o)).length +
        workerCapacity + 1
  /-- the payloads of a stream that no call has returned -/
  payloads : ∀ o, ((hist.flatMap Machine.Taken.events).flatMap (Event.keptFor o)).length ≤
    ((hist.flatMap Machine.Taken.events).flatMap (Event.deliveredFrom o)).length + dataCapacity
  /-- the frames that the write task has not taken -/
  written : (.settings initialSettings :: acceptedIn hist).length ≤
    (hist.flatMap writtenIn).length + writeCapacity

theorem heldFor_length (o : Nat) (t : ReadTask H) : (t.heldFor o).length ≤ 1 := by
  cases t with
  | storeLast f o' | forward o' f =>
      rw [ReadTask.heldFor]
      split
      · exact Nat.le_refl 1
      · exact Nat.zero_le 1
  | _ => exact Nat.zero_le 1

/-- **Bounded backlogs.**  In every run, whatever the peer sends and however slow handlers
and peer are, no stream is more than 129 frames behind what was read for it, no handler more
than 64 payloads behind its stream, and the write task no more than 64 frames behind what was
accepted. -/
theorem backlog_bounded {hist : List (TakenStep H)}
    (h : (connection H).History Machine.free hist s) : Backlog hist s := by
  have hrun := h.run
  have hbounded := bounded_run hrun
  refine ⟨hbounded, fun o f₀ he => ?_, fun o => ?_, unwritten_bounded h⟩
  · have horder := congrArg List.length (inOrder_of_accepted hrun he).order
    rw [List.length_append, List.length_append, inQueues_eq (workers_sound hrun) o] at horder
    have hqueued : ((s.workers (s.home o)).queuedFor o).length ≤ workerCapacity := by
      rw [Worker.queuedFor, List.length_map]
      exact (List.length_filter_le _ _).trans (hbounded.workers _)
    have hheld := heldFor_length o s.readTask
    omega
  · rw [kept_eq_delivered hrun o, List.length_append]
    exact Nat.add_le_add_left (hbounded.data o) _

/-- The peer sends PINGs and reads nothing: the write channel is full, with the SETTINGS
still in it. -/
theorem backlog_bounded_full : ∃ hist s, (connection Unit).History Machine.free hist s ∧
    s.writeChannel.isOpen = true ∧ hist.flatMap writtenIn = [] ∧
    (acceptedIn hist).length + 1 = writeCapacity ∧ Backlog hist s := by
  obtain ⟨hist, s, h, hcheck⟩ := Machine.exists_history_of_trace (connection Unit) Machine.free
    (List.replicate 63 [Action.read (.ping { id := 1 }), .readTask 0]).flatten
    (fun hist s => decide (s.writeChannel.isOpen = true ∧ hist.flatMap writtenIn = [] ∧
      (acceptedIn hist).length + 1 = writeCapacity))
    (by decide +kernel)
  obtain ⟨hopen, hwritten, haccepted⟩ := of_decide_eq_true hcheck
  exact ⟨hist, s, h, hopen, hwritten, haccepted, backlog_bounded h⟩

end SpdyStream.Session
