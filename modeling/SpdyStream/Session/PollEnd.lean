/-
  Session/PollEnd.lean --- when `poll_read` fills no byte.

  A `Ready(Ok(()))` that has filled nothing is the end of file.  `poll_read` returns it
  for an empty payload, and when it finds the stream closed behind a poll of the channel
  that gave nothing; a payload that comes in between is passed over, and so is what a
  spurious failure has not looked at.
-/
import SpdyStream.Session.PollBytes

set_option autoImplicit false

namespace SpdyStream.Session

open SpdyStream.Foundation
open SpdyStream.Framing

variable {H : Type}

/-! ## The close -/

/-- The bytes that were enqueued before the first close. -/
def beforeClose : List ReadEvent → Bytes
  | [] => []
  | .closed :: _ => []
  | e :: evs => e.enqueued ++ beforeClose evs

theorem beforeClose_isPrefix (evs : List ReadEvent) :
    beforeClose evs <+: evs.flatMap ReadEvent.enqueued := by
  induction evs with
  | nil => exact List.prefix_refl _
  | cons e evs ih =>
      cases e with
      | closed => exact List.nil_prefix
      | _ => exact (List.prefix_append_right_inj _).mpr ih

/-- What comes behind a close does not count. -/
theorem beforeClose_of_closed {evs : List ReadEvent} (h : ReadEvent.closed ∈ evs)
    (es : List ReadEvent) : beforeClose (evs ++ es) = beforeClose evs := by
  induction evs with
  | nil => cases h
  | cons e evs ih =>
      cases e with
      | closed => rfl
      | _ =>
          rw [List.cons_append, beforeClose, beforeClose, ih (by simpa using h)]
          · simp
          · simp

/-- Before a close everything counts. -/
theorem beforeClose_of_open {evs : List ReadEvent} (h : ReadEvent.closed ∉ evs)
    (es : List ReadEvent) :
    beforeClose (evs ++ es) = evs.flatMap ReadEvent.enqueued ++ beforeClose es := by
  induction evs with
  | nil => rfl
  | cons e evs ih =>
      have hrest : ReadEvent.closed ∉ evs := fun hmem => h (List.mem_cons_of_mem _ hmem)
      cases e with
      | closed => exact absurd List.mem_cons_self h
      | _ =>
          rw [List.cons_append, beforeClose, ih hrest, List.flatMap_cons, List.append_assoc]
          simp

/-- Where nothing is enqueued and nothing closes, the bytes before the close stay. -/
theorem beforeClose_quiet {evs es : List ReadEvent}
    (hes : ∀ e ∈ es, e.enqueued = [] ∧ e ≠ .closed) :
    beforeClose (evs ++ es) = beforeClose evs := by
  have hnone : ∀ es : List ReadEvent, (∀ e ∈ es, e.enqueued = [] ∧ e ≠ .closed) →
      beforeClose es = [] := by
    intro es hes
    induction es with
    | nil => rfl
    | cons e es ih =>
        obtain ⟨hnothing, hne⟩ := hes e List.mem_cons_self
        rw [beforeClose, hnothing, ih fun e' he' => hes e' (List.mem_cons_of_mem _ he')]
        · rfl
        · exact hne
  by_cases h : ReadEvent.closed ∈ evs
  · exact beforeClose_of_closed h es
  · have hall := beforeClose_of_open h []
    rw [beforeClose_of_open h, hnone es hes]
    rw [List.append_nil] at hall
    exact hall.symm

/-- A byte that was enqueued before the close has not been returned. -/
def undelivered (evs : List ReadEvent) : Bool :=
  decide ((evs.flatMap ReadEvent.returned).length < (beforeClose evs).length)

/-! ## The condition -/

/-- The step makes a `poll_read` with room in its buffer fill nothing too early: it takes
an empty payload while the stream is open or bytes are left; its look at the channel
fails spuriously while the stream is closed and bytes are left; or the stream is closed
with bytes in the channel after that look, before the one at the flag. -/
def Reader.endsEarly (evs : List ReadEvent) (r : Reader H) : ReadAction H → Bool
  | .pollStep false =>
      match r.poll, r.stream.dataQueue with
      | .recv n, [] :: _ => decide (0 < n) && (!r.stream.remoteClosed || undelivered evs)
      | _, _ => false
  | .pollStep true =>
      match r.poll with
      | .recv n => decide (0 < n) && r.stream.remoteClosed && undelivered evs
      | _ => false
  | .work .closeRemote =>
      match r.poll with
      | .borrow n => decide (0 < n) && !r.stream.remoteClosed && undelivered evs
      | _ => false
  | _ => false

/-- The condition under which the end of file is where it should be, in runs of
`poll_read` alone. -/
def PollsToEnd (evs : List ReadEvent) (r : Reader H) (a : ReadAction H) : Prop :=
  a.callsRead = false ∧ r.endsEarly evs a = false

instance (evs : List ReadEvent) (r : Reader H) (a : ReadAction H) :
    Decidable (PollsToEnd evs r a) := inferInstanceAs (Decidable (_ ∧ _))

variable {st₀ : Stream H} {guard : List ReadEvent → Reader H → ReadAction H → Prop}
  {evs : List ReadEvent} {r : Reader H}

/-! ## Pushes and the close -/

/-- The event shows nothing enqueued and no close. -/
def ReadEvent.isOutput : ReadEvent → Bool
  | .pushed _ | .closed => false
  | _ => true

theorem ReadEvent.output_plain {e : ReadEvent} (h : e.isOutput = true) :
    e.enqueued = [] ∧ e ≠ .closed := by
  cases e with
  | pushed _ | closed => cases h
  | _ => exact ⟨rfl, by simp⟩

/-- `poll_read` leaves the closed flag. -/
theorem PollMove.output {r' : Reader H} {a : ReadAction H} {es : List ReadEvent}
    (h : PollMove r a r' es) :
    r'.stream.remoteClosed = r.stream.remoteClosed ∧ ∀ e ∈ es, e.isOutput = true := by
  cases h with
  | begin _ _ _ state events | nothingLeft _ _ _ state events | locks _ _ state events
  | fails _ _ _ state events | empty _ _ _ state events =>
      rw [state, events]
      exact ⟨rfl, List.forall_mem_nil _⟩
  | refused _ _ state events | remainder _ _ _ _ state events | takes _ _ _ _ _ _ state events
  | ends _ _ _ state events | waits _ _ _ state events =>
      rw [state, events]
      exact ⟨rfl, fun e he => by rw [List.mem_singleton.mp he]; rfl⟩

/-- What a step does about pushes and the close: the worker does, nobody else. -/
inductive InputStep (r : Reader H) (a : ReadAction H) (r' : Reader H) (es : List ReadEvent) :
    Prop where
  | push (data : Bytes) (closed : r'.stream.remoteClosed = r.stream.remoteClosed)
      (poll : r'.poll = r.poll) (events : es = [.pushed data])
  | close (action : a = .work .closeRemote) (closed : r'.stream.remoteClosed = true)
      (poll : r'.poll = r.poll) (events : es = [.closed])
  | output (closed : r'.stream.remoteClosed = r.stream.remoteClosed)
      (events : ∀ e ∈ es, e.isOutput = true)

theorem InputStep.quiet {r' : Reader H} {a : ReadAction H} {es : List ReadEvent}
    (closed : r'.stream.remoteClosed = r.stream.remoteClosed) (events : es = []) :
    InputStep r a r' es := by
  refine .output closed ?_
  rw [events]
  exact List.forall_mem_nil _

theorem input_step {r' : Reader H} {a : ReadAction H} {es : List ReadEvent}
    (hs : r.step a = some (r', es)) : InputStep r a r' es := by
  cases reader_step hs with
  | work op action state events =>
      cases op with
      | pushData data =>
          simp only [Reader.work] at state events
          split at state
          · rename_i hroom
            rw [if_pos hroom] at events
            refine .push data ?_ (by rw [state]; rfl) events
            rw [state]
            simp [Reader.notify, Stream.pushData, hroom]
          · rename_i hfull
            rw [if_neg hfull] at events
            exact .quiet (by rw [state]) events
      | closeRemote => exact .close action (by rw [state]; rfl) (by rw [state]; rfl) events
      | _ => exact .quiet (by rw [state]; rfl) events
  | invoke j q action state events => exact .quiet (by rw [state]; rfl) events
  | call j alt c pc out action get outcome state events =>
      have hside := congrArg Prod.snd (callStep_keeps outcome).peerSide
      refine .output (by rw [state]; exact hside) fun e he => ?_
      rw [events] at he
      obtain ⟨eff, -, he⟩ := List.mem_flatMap.mp he
      cases eff with
      | enqueued f => cases he
      | delivered data =>
          rw [List.mem_singleton.mp he]
          rfl
  | cancel j pc pc' st action get outcome state events =>
      have hside := congrArg Prod.snd (callCancel_keeps outcome).1
      exact .quiet (by rw [state]; exact hside) events
  | poll move => exact .output move.output.1 move.output.2

/-- The flag is set when a close has been seen. -/
theorem closed_iff (h : (reader st₀).Run guard evs r) :
    r.stream.remoteClosed = true ↔ .closed ∈ evs := by
  refine h.invariant (I := fun evs r => r.stream.remoteClosed = true ↔ .closed ∈ evs) ?_ ?_
  · exact iff_of_false Bool.false_ne_true List.not_mem_nil
  · intro evs es r r' a _ _ hs ih
    rw [List.mem_append]
    cases input_step hs with
    | push data closed poll events =>
        rw [closed, events, ih]
        simp
    | close action closed poll events =>
        rw [closed, events]
        simp
    | output closed events =>
        have hnot : ReadEvent.closed ∉ es := fun hmem => by cases events _ hmem
        rw [closed, ih]
        simp [hnot]

/-! ## The end of file -/

/-- When `poll_read` looks at a closed stream behind its look at the channel, the bytes
before the close have been returned. -/
def FlagKept (evs : List ReadEvent) (r : Reader H) : Prop :=
  ∀ n, r.poll = .borrow n → 0 < n → r.stream.remoteClosed = true → undelivered evs = false

/-- What has been returned stays so, while the bytes before the close stay. -/
theorem undelivered_append {es : List ReadEvent}
    (hbefore : beforeClose (evs ++ es) = beforeClose evs) (h : undelivered evs = false) :
    undelivered (evs ++ es) = false := by
  simp only [undelivered, decide_eq_false_iff_not, Nat.not_lt] at h ⊢
  rw [hbefore, List.flatMap_append, List.length_append]
  exact h.trans (Nat.le_add_right _ _)

theorem undelivered_output {es : List ReadEvent} (hes : ∀ e ∈ es, e.isOutput = true)
    (h : undelivered evs = false) : undelivered (evs ++ es) = false :=
  undelivered_append (beforeClose_quiet fun e he => ReadEvent.output_plain (hes e he)) h

theorem undelivered_closed {es : List ReadEvent} (hclosed : ReadEvent.closed ∈ evs)
    (h : undelivered evs = false) : undelivered (evs ++ es) = false :=
  undelivered_append (beforeClose_of_closed hclosed es) h

theorem nil_of_take {bytes : Bytes} {n : Nat} (hn : 0 < n)
    (h : bytes.take (min bytes.length n) = []) : bytes = [] := by
  refine List.eq_nil_of_length_eq_zero ?_
  have hlength := congrArg List.length h
  rw [List.length_take, List.length_nil] at hlength
  omega

/-- `poll_read` comes to the closed flag from the channel. -/
theorem borrow_from {r' : Reader H} {a : ReadAction H} {es : List ReadEvent}
    (hs : r.step a = some (r', es)) {n : Nat} (hpc : r'.poll = .borrow n) :
    r.poll = .borrow n ∨ r.poll = .recv n ∧ (a = .pollStep true ∨ r.stream.dataQueue = []) := by
  cases reader_step hs with
  | work op action state events =>
      rw [state, (r.work_eq op).2.2.2.1] at hpc
      exact .inl hpc
  | invoke j q action state events | call j _ _ _ _ action get outcome state events
  | cancel j _ _ _ action get outcome state events =>
      rw [state] at hpc
      exact .inl hpc
  | poll move =>
      cases move with
      | fails m action pc state events =>
          rw [state] at hpc
          cases hpc
          exact .inr ⟨pc, .inl action⟩
      | empty m pc queue state events =>
          rw [state] at hpc
          cases hpc
          exact .inr ⟨pc, .inr queue⟩
      | begin _ _ _ state _ | nothingLeft _ _ _ state _ | locks _ _ state _ | refused _ _ state _
      | remainder _ _ _ _ state _ | takes _ _ _ _ _ _ state _ | ends _ _ _ state _
      | waits _ _ _ state _ =>
          rw [state] at hpc
          cases hpc

/-- The bytes that were enqueued are those returned and those held. -/
theorem polls_kept (h : (reader st₀).Run PollsToEnd evs r) :
    evs.flatMap ReadEvent.enqueued = evs.flatMap ReadEvent.returned ++ r.held :=
  polled_bytes (h.mono fun _ _ _ hguard => hguard.1)

/-- Where nothing is held everything has been returned. -/
theorem undelivered_of_empty (h : (reader st₀).Run PollsToEnd evs r) (hheld : r.held = []) :
    undelivered evs = false := by
  have hle := (beforeClose_isPrefix evs).length_le
  rw [polls_kept h, hheld, List.append_nil] at hle
  exact decide_eq_false (Nat.not_lt.mpr hle)

theorem flag_step (hrun : (reader st₀).Run PollsToEnd evs r) {r' : Reader H} {a : ReadAction H}
    {es : List ReadEvent} (hguard : PollsToEnd evs r a) (hs : r.step a = some (r', es))
    (h : FlagKept evs r) : FlagKept (evs ++ es) r' := by
  intro n hpc hn hclosed'
  cases input_step hs with
  | push data closed poll events =>
      rw [closed] at hclosed'
      exact undelivered_closed ((closed_iff hrun).mp hclosed') (h n (poll ▸ hpc) hn hclosed')
  | close action closed poll events =>
      rw [poll] at hpc
      cases hflag : r.stream.remoteClosed with
      | true => exact undelivered_closed ((closed_iff hrun).mp hflag) (h n hpc hn hflag)
      | false =>
          have hopen : ReadEvent.closed ∉ evs := fun hmem => by
            rw [(closed_iff hrun).mpr hmem] at hflag
            cases hflag
          have hlate : undelivered evs = false := by
            have hearly := hguard.2
            rw [action] at hearly
            simpa [Reader.endsEarly, hpc, hn, hflag] using hearly
          have hbefore : beforeClose (evs ++ es) = beforeClose evs := by
            have hall := beforeClose_of_open hopen []
            rw [List.append_nil] at hall
            rw [beforeClose_of_open hopen, hall, events]
            rfl
          exact undelivered_append hbefore hlate
  | output closed events =>
      rw [closed] at hclosed'
      refine undelivered_output events ?_
      rcases borrow_from hs hpc with hbefore | ⟨hrecv, hfails | hqueue⟩
      · exact h n hbefore hn hclosed'
      · have hearly := hguard.2
        rw [hfails] at hearly
        simpa [Reader.endsEarly, hrecv, hn, hclosed'] using hearly
      · refine undelivered_of_empty hrun ?_
        have hnone := (remainder_kept hrun).past (by rw [hrecv]; rfl)
        rw [Reader.held, hnone, hqueue]
        rfl

theorem flag_kept (h : (reader st₀).Run PollsToEnd evs r) : FlagKept evs r := by
  refine h.invariant (I := FlagKept) ?_ ?_
  · intro n hpc
    cases hpc
  · intro evs es r r' a hrun hguard hs ih
    exact flag_step hrun hguard hs ih

/-- The stream is closed, and the bytes before the close are returned. -/
structure AtEnd (evs : List ReadEvent) : Prop where
  closed : ReadEvent.closed ∈ evs
  delivered : beforeClose evs <+: evs.flatMap ReadEvent.returned

theorem atEnd_of_flag (h : (reader st₀).Run PollsToEnd evs r)
    (hclosed : r.stream.remoteClosed = true) (hdelivered : undelivered evs = false) :
    AtEnd evs := by
  refine ⟨(closed_iff h).mp hclosed, ?_⟩
  refine List.prefix_of_prefix_length_le (beforeClose_isPrefix evs) ?_
    (Nat.not_lt.mp (of_decide_eq_false hdelivered))
  exact ⟨r.held, (polls_kept h).symm⟩

/-- A step that fills nothing where there is room finds the end. -/
theorem atEnd_of_step (hrun : (reader st₀).Run PollsToEnd evs r) {r' : Reader H}
    {a : ReadAction H} {es : List ReadEvent} (hguard : PollsToEnd evs r a)
    (hs : r.step a = some (r', es)) {n : Nat} (hn : 0 < n) (hmem : .filled n [] ∈ es) :
    AtEnd evs ∧ es = [.filled n []] := by
  obtain ⟨hone, hfill⟩ := fill_step hs hmem
  refine ⟨?_, hone⟩
  cases hfill with
  | remainder bytes pc get filled =>
      refine absurd ?_ (remainder_kept hrun).bytes
      rw [get]
      exact congrArg some (nil_of_take hn filled.symm)
  | takes data rest action pc queue filled =>
      obtain rfl := nil_of_take hn filled.symm
      have hearly := hguard.2
      rw [action] at hearly
      simp only [Reader.endsEarly, pc, queue, hn, decide_true, Bool.true_and,
        Bool.or_eq_false_iff, Bool.not_eq_false'] at hearly
      exact atEnd_of_flag hrun hearly.1 hearly.2
  | ends pc closed filled => exact atEnd_of_flag hrun closed (flag_kept hrun n pc hn closed)

/-- **End of file.**  If no step ends early, a `poll_read` with room in its buffer that
fills nothing comes behind the close, and behind all bytes enqueued before it. -/
theorem zeroBytes_atEnd (h : (reader st₀).Run PollsToEnd evs r) {pre post : List ReadEvent}
    {n : Nat} (heq : evs = pre ++ .filled n [] :: post) (hn : 0 < n) : AtEnd pre := by
  obtain ⟨evs₀, r₀, a, r₁, es₁, es₂, hrun, hguard, hs, rfl⟩ := h.step_of_split heq
  obtain ⟨hend, hone⟩ := atEnd_of_step hrun hguard hs hn (by simp)
  have hnil : es₁ = [] := by
    cases es₁ with
    | nil => rfl
    | cons e es => simp at hone
  rw [hnil, List.append_nil]
  exact hend

/-- A payload comes and the stream is reset; the payload is read in two parts, and the next
`poll_read` fills nothing. -/
theorem zeroBytes_atEnd_afterClose : ∃ evs r, (reader plainStream).Run PollsToEnd evs r ∧
    evs = [.pushed [1, 2], .closed, .filled 1 [1], .filled 5 [2]] ++ [.filled 5 []] ∧
      AtEnd [.pushed [1, 2], .closed, .filled 1 [1], .filled 5 [2]] := by
  obtain ⟨evs, r, h, hcheck⟩ := Machine.exists_run_of_exec (reader plainStream) PollsToEnd
    ([.work (.pushData [1, 2]), .work .closeRemote, .work .removeStream] ++ polls 1 3 ++
      polls 5 1 ++ polls 5 4)
    (fun evs _ => decide (evs =
      [.pushed [1, 2], .closed, .filled 1 [1], .filled 5 [2]] ++ [.filled 5 []]))
    (by decide +kernel)
  have hevs := of_decide_eq_true hcheck
  exact ⟨evs, r, h, hevs, zeroBytes_atEnd h hevs (by decide)⟩

/-- An empty payload comes, then one with a byte; the stream is reset, and the empty
payload is reported as the end of file. -/
theorem zeroBytes_early : ¬ ∀ evs (r : Reader Unit), (reader plainStream).Reached evs r →
    ∀ pre post n, evs = pre ++ .filled n [] :: post → 0 < n → AtEnd pre := by
  intro hall
  obtain ⟨evs, r, h, hcheck⟩ := Machine.exists_run_of_exec (reader plainStream) Machine.free
    ([.work (.pushData []), .work (.pushData [1]), .work .closeRemote, .work .removeStream] ++
      polls 5 3)
    (fun evs _ => decide (evs = [.pushed [], .pushed [1], .closed, .filled 5 []]))
    (by decide +kernel)
  have hdelivered := (hall evs r h [.pushed [], .pushed [1], .closed] [] 5
    (of_decide_eq_true hcheck) (by decide)).delivered
  exact absurd hdelivered (by decide)

end SpdyStream.Session
