/-
  Session/Stalled.lean --- a peer that has stopped reading.

  Then the write task writes nothing, and the write channel fills.  What comes in does not
  wait for what goes out: the other tasks still come to an end of what they can do, where
  every frame that was read is with its stream, and only those wait for room that have a
  frame to send.
-/
import SpdyStream.Session.AtRest

set_option autoImplicit false

namespace SpdyStream.Session

open SpdyStream.Foundation
open SpdyStream.Framing

variable {H : Type}

/-! ## Own steps but for the write task -/

/-- The connection takes the step by itself, and nothing is written. -/
def Action.isInner (a : Action H) : Bool :=
  match a with
  | .write => false
  | a => a.isOwn

theorem isOwn_of_isInner {a : Action H} (h : a.isInner = true) : a.isOwn = true := by
  cases a with
  | write => cases h
  | _ => exact h

/-- A channel that takes no frame has its receiver, and as many frames as it can hold. -/
theorem send_full_iff {c : Channel H} {f : Frame H} :
    c.send f = .full ↔ c.isOpen = true ∧ writeCapacity ≤ c.queue.length := by
  unfold Channel.send
  split
  · rename_i hclosed
    simp [hclosed]
  · rename_i hopen
    rw [Bool.not_eq_false] at hopen
    split
    · rename_i hroom
      simp [Nat.not_le.mpr hroom]
    · rename_i hroom
      simp [hopen, Nat.not_lt.mp hroom]

/-- The write channel has no room. -/
def State.isFull (s : State H) : Prop :=
  s.writeChannel.isOpen = true ∧ writeCapacity ≤ s.writeChannel.queue.length

/-- Where the connection stands when nothing is written. -/
structure Stalled (s : State H) : Prop where
  workers : ∀ i, (s.workers i).queue = [] ∧ (s.workers i).todo = []
  /-- the read task reads on, has ended, or has an answer that there is no room for -/
  readTask : (s.readTask = .reading ∨ s.readTask = .finished ∨ s.readTask = .dead) ∨
    (∃ f, s.readTask = .respond f) ∧ s.isFull
  /-- a call on a stream waits as it does at rest, or for room for its frame -/
  calls : ∀ c ∈ s.calls, ∃ st, s.objs[c.stream]? = some st ∧
    (CallAtRest st c.pc ∨ (c.pc.sends st).isSome = true ∧ s.isFull)
  closes : ∀ c ∈ s.closes, (c = .returned ∨ c = .drain ∧ s.streams.keys ≠ []) ∨
    (∃ lastGood, c = .sendGoAway lastGood) ∧ s.isFull
  pings : ∀ p ∈ s.pings, ((∃ r, p = .returned r) ∨ ∃ id, p = .wait id .waiting) ∨
    (∃ id rx, p = .send id rx) ∧ s.isFull

variable {guard : List (Event H) → State H → Action H → Prop} {evs : List (Event H)} {s : State H}

theorem stalled_of_settled (h : (connection H).Run guard evs s)
    (hsettled : (connection H).Settled Action.isInner s) : Stalled s := by
  have hreg := registry_run h
  have hread : ∀ pick, s.readStep pick = none := fun pick => hsettled (.readTask pick) rfl
  have hlock := unlocked_of_settled hreg hread
  have hworkers : ∀ i, (s.workers i).queue = [] ∧ (s.workers i).todo = [] := fun i =>
    worker_of_settled h hlock (hsettled (.workerRecv i) rfl) (hsettled (.workerRun i) rfl)
  refine ⟨hworkers, ?_, fun c hc => ?_, fun c hc => ?_, fun p hp => ?_⟩
  · rcases readTask_of_settled hreg (fun i => (hworkers i).1) hread with hpc | ⟨f, hpc, hfull⟩
    · exact .inl hpc
    · exact .inr ⟨⟨f, hpc⟩, send_full_iff.mp hfull⟩
  · obtain ⟨st, hst, hrest | ⟨f, hsends, hfull⟩⟩ := callAtRest_of_stuck h
      (fun i => (hworkers i).2) (fun k alt => hsettled (.call k alt) rfl) hc
    · exact ⟨st, hst, .inl hrest⟩
    · refine ⟨st, hst, .inr ⟨?_, send_full_iff.mp hfull⟩⟩
      rw [hsends]
      rfl
  · rcases closeAtRest_of_stuck hlock (fun k => hsettled (.closeStep k) rfl) hc with
      hrest | ⟨lastGood, hsends, hfull⟩
    · exact .inl hrest
    · exact .inr ⟨⟨lastGood, hsends⟩, send_full_iff.mp hfull⟩
  · rcases pingAtRest_of_stuck (fun k => hsettled (.pingStep k) rfl) hp with
      hrest | ⟨id, rx, hsends, hfull⟩
    · exact .inl hrest
    · exact .inr ⟨⟨id, rx, hsends⟩, send_full_iff.mp hfull⟩

theorem Stalled.holdsFrame (h : Stalled s) : s.readTask.holdsFrame = false := by
  rcases h.readTask with (hpc | hpc | hpc) | ⟨⟨f, hpc⟩, -⟩
  · rw [hpc]
    rfl
  · rw [hpc]
    rfl
  · rw [hpc]
    rfl
  · rw [hpc]
    rfl

/-- **What comes in does not wait for what goes out.**  If the peer reads nothing from some
moment on, then whichever steps are taken the connection still comes to where every frame
that was read has been decided, looked up and applied, where a reader waits only for data
that has not come, and a task only for room for a frame of its own. -/
theorem comes_stalled (h : (connection H).Reached evs s) :
    (connection H).Comes Action.isInner
      (fun evs s => (connection H).Reached evs s ∧ TakenIn evs ∧ Stalled s) evs s := by
  have hdec : (connection H).Decreases Action.isInner State.measure :=
    own_decreases.mono fun _ => isOwn_of_isInner
  refine (hdec.comes (J := (connection H).Reached)
    (fun _ _ _ _ _ hrun _ hs => hrun.step trivial hs) h).mono fun evs s hboth => ?_
  have hstalled := stalled_of_settled hboth.1 hboth.2
  exact ⟨hboth.1, takenIn_of_idle hboth.1 hstalled.holdsFrame hstalled.workers, hstalled⟩

/-- The write channel is full and the read task has one more PING to echo, while DATA is on
its way to a stream whose handler reads. -/
theorem comes_stalled_pings : ∃ evs s, (connection Unit).Reached evs s ∧ s.isFull ∧
    s.readTask.answer = some (.ping { id := 1 }) ∧
    .forwarded 0 (.data { streamId := 1, flags := 0, data := [7] }) ∈ evs ∧
    (connection Unit).Comes Action.isInner
      (fun evs s => (connection Unit).Reached evs s ∧ TakenIn evs ∧ Stalled s) evs s := by
  obtain ⟨evs, s, h, hcheck⟩ := Machine.exists_run_of_exec (connection Unit) Machine.free
    (registers (plainSyn 1 0) ++ applies (.synStream (plainSyn 1 0)) ++ [.invoke 0 .readData] ++
      calls 0 3 ++ routes (.data { streamId := 1, flags := 0, data := [7] }) ++
      (List.replicate 63 [Action.read (.ping { id := 1 }), .readTask 0]).flatten ++
      [.read (.ping { id := 1 })])
    (fun evs s => decide ((s.writeChannel.isOpen = true ∧
      writeCapacity ≤ s.writeChannel.queue.length) ∧
      s.readTask.answer = some (.ping { id := 1 }) ∧
      .forwarded 0 (.data { streamId := 1, flags := 0, data := [7] }) ∈ evs))
    (by decide +kernel)
  obtain ⟨hfull, hpc, hforwarded⟩ := of_decide_eq_true hcheck
  exact ⟨evs, s, h, hfull, hpc, hforwarded, comes_stalled h⟩

end SpdyStream.Session
