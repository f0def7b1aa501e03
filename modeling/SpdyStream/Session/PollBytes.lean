/-
  Session/PollBytes.lean --- the bytes of a stream that only `poll_read` reads.

  A `poll_read` puts what fits into its buffer and keeps the rest of the payload for the
  next.  Whatever the lengths of the payloads and the buffers are, no byte is lost, none
  comes twice, and none is put where there is no room.
-/
import SpdyStream.Session.ReadOrder

set_option autoImplicit false

namespace SpdyStream.Session

open SpdyStream.Foundation
open SpdyStream.Framing

variable {H : Type} {st₀ : Stream H} {guard : List ReadEvent → Reader H → ReadAction H → Prop}
  {evs : List ReadEvent} {r : Reader H}

/-! ## Runs of poll_read -/

/-- The action calls `read_data`. -/
def ReadAction.callsRead : ReadAction H → Bool
  | .invoke _ .readData => true
  | _ => false

theorem callCancel_returned {pc pc' : CallPc H} {st st' : Stream H}
    (h : callCancel pc st = some (pc', st')) : pc' = .returned .cancelled := by
  cases pc with
  | replySend _ _ | writeSend _ _ | writeWait _ _ _ | resetSend _ | readLock | readSelect =>
      cases h
      rfl
  | _ => cases h

/-- Where `read_data` is not called no call reads. -/
theorem noReads_run (h : (reader st₀).Run guard evs r)
    (hguard : ∀ evs r a, guard evs r a → a.callsRead = false) :
    ∀ j pc, r.calls j = some pc → pc.isReading = false := by
  refine h.invariant (I := fun _ r => ∀ j pc, r.calls j = some pc → pc.isReading = false) ?_ ?_
  · intro j pc hpc
    cases hpc
  · intro evs es r r' a _ hg hs ih
    have hset : ∀ j pc', pc'.isReading = false → ∀ i pc,
        Function.update r.calls j (some pc') i = some pc → pc.isReading = false := by
      intro j pc' hpc' i pc hpc
      rw [Function.update_apply] at hpc
      split at hpc
      · cases hpc
        exact hpc'
      · exact ih i pc hpc
    cases reader_step hs with
    | work op action state events =>
        rw [state, (r.work_eq op).2.1]
        exact ih
    | invoke j q action state events =>
        rw [state]
        refine hset j _ ?_
        have hnot := hguard evs r a hg
        rw [action] at hnot
        cases q with
        | readData => cases hnot
        | _ => rfl
    | call j alt c pc out action get outcome state events =>
        rw [state]
        exact hset j _ (callStep_readsNot outcome (ih j pc get)).reading
    | cancel j pc pc' st action get outcome state events =>
        rw [state]
        refine hset j _ ?_
        rw [callCancel_returned outcome]
        rfl
    | poll move =>
        rw [move.calls]
        exact ih

theorem keepsOrder_of_noReads (h : ∀ j pc, r.calls j = some pc → pc.isReading = false)
    (a : ReadAction H) : r.keepsOrder a = true := by
  have hnot : r.readsBytes a = false := by
    cases a with
    | call j alt c =>
        simp only [Reader.readsBytes]
        split
        · rfl
        · rename_i pc hpc
          have hreads := h j pc hpc
          have htakes : pc.takes alt r.stream = none := by
            cases pc with
            | readLock | readTry | readBorrow | readSelect | readDrain => cases hreads
            | _ => rfl
          rw [htakes]
          rfl
    | _ => rfl
  rw [Reader.keepsOrder, hnot]
  exact Bool.or_true _

/-- Of the two ways to read only `poll_read` is used. -/
def PollsOnly (_ : List ReadEvent) (_ : Reader H) (a : ReadAction H) : Prop :=
  a.callsRead = false

instance (evs : List ReadEvent) (r : Reader H) (a : ReadAction H) :
    Decidable (PollsOnly evs r a) := inferInstanceAs (Decidable (_ = false))

/-- The bytes that were enqueued are those returned and those held. -/
theorem polled_bytes (h : (reader st₀).Run PollsOnly evs r) :
    evs.flatMap ReadEvent.enqueued = evs.flatMap ReadEvent.returned ++ r.held :=
  bytes_kept h fun _ _ a hrun _ =>
    keepsOrder_of_noReads (noReads_run hrun fun _ _ _ hguard => hguard) a

/-! ## Room -/

/-- Where the bytes that `poll_read` puts into its buffer come from. -/
inductive FillStep (r : Reader H) (a : ReadAction H) (n : Nat) (data : Bytes) : Prop where
  | remainder (bytes : Bytes) (pc : r.poll = .unread n) (get : r.unread = some bytes)
      (filled : data = bytes.take (min bytes.length n))
  | takes (payload : Bytes) (rest : List Bytes) (action : a = .pollStep false)
      (pc : r.poll = .recv n) (queue : r.stream.dataQueue = payload :: rest)
      (filled : data = payload.take (min payload.length n))
  | ends (pc : r.poll = .borrow n) (closed : r.stream.remoteClosed = true) (filled : data = [])

theorem fill_step {r' : Reader H} {a : ReadAction H} {es : List ReadEvent}
    (hs : r.step a = some (r', es)) {n : Nat} {data : Bytes} (hmem : .filled n data ∈ es) :
    es = [.filled n data] ∧ FillStep r a n data := by
  cases poll_step hs (poll_of_filled hs hmem) with
  | begin _ _ _ _ events | nothingLeft _ _ _ _ events | locks _ _ _ events
  | fails _ _ _ _ events | empty _ _ _ _ events =>
      rw [events] at hmem
      cases hmem
  | refused _ _ _ events | waits _ _ _ _ events =>
      rw [events] at hmem
      cases List.mem_singleton.mp hmem
  | remainder m bytes pc get state events =>
      rw [events] at hmem
      obtain ⟨rfl, rfl⟩ := ReadEvent.filled.inj (List.mem_singleton.mp hmem)
      exact ⟨events, .remainder bytes pc get rfl⟩
  | takes m payload rest action pc queue state events =>
      rw [events] at hmem
      obtain ⟨rfl, rfl⟩ := ReadEvent.filled.inj (List.mem_singleton.mp hmem)
      exact ⟨events, .takes payload rest action pc queue rfl⟩
  | ends m pc closed state events =>
      rw [events] at hmem
      obtain ⟨rfl, rfl⟩ := ReadEvent.filled.inj (List.mem_singleton.mp hmem)
      exact ⟨events, .ends pc closed rfl⟩

/-- What a `poll_read` puts into its buffer fits. -/
theorem FillStep.room {a : ReadAction H} {n : Nat} {data : Bytes} (h : FillStep r a n data) :
    data.length ≤ n := by
  cases h with
  | remainder bytes pc get filled =>
      rw [filled, List.length_take]
      exact (Nat.min_le_left _ _).trans (Nat.min_le_right _ _)
  | takes payload rest action pc queue filled =>
      rw [filled, List.length_take]
      exact (Nat.min_le_left _ _).trans (Nat.min_le_right _ _)
  | ends pc closed filled =>
      rw [filled]
      exact Nat.zero_le n

/-- In a run no `poll_read` overfills its buffer. -/
theorem filled_fits (h : (reader st₀).Run guard evs r) {n : Nat} {data : Bytes}
    (hmem : .filled n data ∈ evs) : data.length ≤ n := by
  obtain ⟨pre, post, heq⟩ := List.append_of_mem hmem
  obtain ⟨_, _, _, _, es₁, es₂, -, -, hs, -⟩ := h.step_of_split heq
  exact (fill_step hs (List.mem_append_right es₁ List.mem_cons_self)).2.room

/-! ## Conservation -/

/-- No byte is lost or made up: what was enqueued is what was returned, then the
remainder, then the payloads in the channel.  Every buffer had room for what was put
into it, and a remainder has bytes. -/
structure BytesConserved (evs : List ReadEvent) (r : Reader H) : Prop where
  bytes : evs.flatMap ReadEvent.enqueued =
    evs.flatMap ReadEvent.returned ++ r.unread.getD [] ++ r.stream.dataQueue.flatten
  room : ∀ n data, .filled n data ∈ evs → data.length ≤ n
  remainder : r.unread ≠ some []

/-- **Conservation.**  However the payloads and the buffers are cut, and whatever the
worker and the teardown do between, a stream that only `poll_read` reads conserves its
bytes. -/
theorem polls_conserve (h : (reader st₀).Run PollsOnly evs r) : BytesConserved evs r := by
  refine ⟨?_, fun n data hmem => filled_fits h hmem, (remainder_kept h).bytes⟩
  calc evs.flatMap ReadEvent.enqueued
      = evs.flatMap ReadEvent.returned ++ r.held := polled_bytes h
    _ = evs.flatMap ReadEvent.returned ++ r.unread.getD [] ++ r.stream.dataQueue.flatten := by
        rw [Reader.held, List.append_assoc]

/-- A buffer without room, then the front of a payload, its end, an empty payload, and the
front of the last, whose end is held. -/
theorem polls_conserve_parts : ∃ evs r, (reader plainStream).Run PollsOnly evs r ∧
    evs = [.pushed [1, 2, 3], .pushed [], .pushed [4, 5], .closed, .filled 0 [], .filled 2 [1, 2],
      .filled 5 [3], .filled 5 [], .filled 1 [4]] ∧ r.unread = some [5] ∧
      BytesConserved evs r := by
  obtain ⟨evs, r, h, hcheck⟩ := Machine.exists_run_of_exec (reader plainStream) PollsOnly
    ([.work (.pushData [1, 2, 3]), .work (.pushData []), .work (.pushData [4, 5]),
      .work .closeRemote, .work .removeStream] ++ polls 0 3 ++ polls 2 1 ++ polls 5 1 ++
      polls 5 3 ++ polls 1 3)
    (fun evs r => decide (evs = [.pushed [1, 2, 3], .pushed [], .pushed [4, 5], .closed,
      .filled 0 [], .filled 2 [1, 2], .filled 5 [3], .filled 5 [], .filled 1 [4]] ∧
      r.unread = some [5]))
    (by decide +kernel)
  obtain ⟨hevs, hunread⟩ := of_decide_eq_true hcheck
  exact ⟨evs, r, h, hevs, hunread, polls_conserve h⟩

end SpdyStream.Session
