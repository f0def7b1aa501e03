/-
  Session/PollWake.lean --- a `poll_read` that waits, and the close.

  Before it returns `Pending` a `poll_read` leaves its waker with the data channel, and
  looks at the closed flag.  It leaves no waker with the flag, and needs none: it has
  `&mut self`, so by then there is no clone of the `Arc` by which the stream could be
  closed.
-/
import SpdyStream.Session.ReadOrder

set_option autoImplicit false

namespace SpdyStream.Session

open SpdyStream.Foundation
open SpdyStream.Framing

variable {H : Type}

/-- The last `poll_read` has returned `Pending`, the stream is closed, and the task was
not woken. -/
def Reader.Stranded (r : Reader H) : Prop :=
  r.pending = true ∧ r.stream.remoteClosed = true ∧ r.woken = false

/-- The last `poll_read` has returned `Pending`, and the task was not woken. -/
def Reader.Sleeps (r : Reader H) : Prop := r.pending = true ∧ r.woken = false

instance (r : Reader H) : Decidable r.Sleeps := inferInstanceAs (Decidable (_ ∧ _))

/-- A task sleeps on open streams, and between its `poll_read`s. -/
structure SleepsOpen (r : Reader H) : Prop where
  here : r.Sleeps → r.stream.remoteClosed = false
  idle : r.pending = true → r.poll = .idle

/-- A step that is not the worker's on a task that waits. -/
theorem sleeps_step {r r' : Reader H} {a : ReadAction H} {es : List ReadEvent}
    (hs : r.step a = some (r', es)) (halone : ∀ op, a = .work op → r.pending = false)
    (h : SleepsOpen r) : SleepsOpen r' := by
  cases reader_step hs with
  | work op action state events =>
      obtain ⟨-, -, -, -, hpending⟩ := r.work_eq op
      have hnot : r'.pending = false := by rw [state, hpending, halone op action]
      exact ⟨fun hsleeps => absurd hsleeps.1 (ne_true_of_eq_false hnot),
        fun hp => absurd hp (ne_true_of_eq_false hnot)⟩
  | invoke j q action state events =>
      rw [state]
      exact ⟨h.here, h.idle⟩
  | call j alt c pc out action get outcome state events =>
      have hside := congrArg Prod.snd (callStep_keeps outcome).peerSide
      rw [state]
      exact ⟨fun hsleeps => hside.trans (h.here hsleeps), h.idle⟩
  | cancel j pc pc' st action get outcome state events =>
      have hside := congrArg Prod.snd (callCancel_keeps outcome).1
      rw [state]
      exact ⟨fun hsleeps => hside.trans (h.here hsleeps), h.idle⟩
  | poll move =>
      -- while a `poll_read` is in progress nothing is pending
      have hbusy : r.poll ≠ .idle → r.pending = false := fun hpoll =>
        eq_false_of_ne_true fun hp => hpoll (h.idle hp)
      cases move with
      | begin n action pc state events =>
          rw [state]
          exact ⟨fun hsleeps => absurd hsleeps.1 Bool.false_ne_true,
            fun hp => absurd hp Bool.false_ne_true⟩
      | remainder n bytes pc get state events =>
          have hnot := hbusy (by simp [pc])
          rw [state]
          exact ⟨fun hsleeps => absurd hsleeps.1 (by simp [hnot]), fun _ => rfl⟩
      | takes n data rest action pc queue state events =>
          have hnot := hbusy (by simp [pc])
          rw [state]
          exact ⟨fun hsleeps => absurd hsleeps.1 (by simp [hnot]), fun _ => rfl⟩
      | ends n pc closed state events =>
          have hnot := hbusy (by simp [pc])
          rw [state]
          exact ⟨fun hsleeps => absurd hsleeps.1 (by simp [Reader.unlock, hnot]), fun _ => rfl⟩
      | nothingLeft n pc _ state events | locks n pc state events | fails n _ pc state events
      | empty n pc _ state events =>
          have hnot := hbusy (by simp [pc])
          rw [state]
          exact ⟨fun hsleeps => absurd hsleeps.1 (by simp [hnot]),
            fun hp => absurd hp (by simp [hnot])⟩
      | refused n pc state events =>
          rw [state]
          exact ⟨fun hsleeps => absurd hsleeps.2.symm Bool.false_ne_true, fun _ => rfl⟩
      | waits n pc here state events =>
          rw [state]
          exact ⟨fun _ => here, fun _ => rfl⟩

variable {st₀ : Stream H} {guard : List ReadEvent → Handle H → HandleAction H → Prop}
  {evs : List ReadEvent} {x : Handle H}

theorem sleeps_run (h : (handle st₀).Run guard evs x) : SleepsOpen x.reader := by
  refine h.invariant (I := fun _ x => SleepsOpen x.reader) ?_ ?_
  · exact ⟨fun hsleeps => absurd hsleeps.1 Bool.false_ne_true,
      fun hp => absurd hp Bool.false_ne_true⟩
  · intro evs es x x' a hrun _ hs ih
    cases handle_step hs with
    | release action state events =>
        rw [state]
        exact ih
    | stream ra action permitted step state =>
        refine sleeps_step step (fun op hop => eq_false_of_ne_true fun hp => ?_) ih
        have hfree := (exclusive_run hrun).pending hp
        rw [hop] at permitted
        exact absurd permitted (ne_true_of_eq_false hfree)

/-- **Wake-ups.**  Whatever the worker, the teardown and the calls do, there is no state in
which the last `poll_read` has returned `Pending`, the stream is closed, and the task was
not woken. -/
theorem never_stranded (h : (handle st₀).Reached evs x) : ¬ x.reader.Stranded := by
  rintro ⟨hpending, hclosed, hwoken⟩
  have hopen := (sleeps_run h).here ⟨hpending, hwoken⟩
  rw [hclosed] at hopen
  cases hopen

/-- A payload comes, the connection lets go of the stream, and the second `poll_read`
waits. -/
theorem never_stranded_waits : ∃ evs x, (handle plainStream).Reached evs x ∧
    evs = [.pushed [1], .filled 5 [1], .pending] ∧ x.reader.Sleeps ∧ ¬ x.reader.Stranded := by
  obtain ⟨evs, x, h, hcheck⟩ := Machine.exists_run_of_exec (handle plainStream) Machine.free
    (.stream (.work (.pushData [1])) :: .release :: (polls 5 3 ++ polls 5 4).map .stream)
    (fun evs x => decide (evs = [.pushed [1], .filled 5 [1], .pending] ∧ x.reader.Sleeps))
    (by decide +kernel)
  obtain ⟨hevs, hsleeps⟩ := of_decide_eq_true hcheck
  exact ⟨evs, x, h, hevs, hsleeps, never_stranded h⟩

end SpdyStream.Session
