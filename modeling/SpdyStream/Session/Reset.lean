/-
  Session/Reset.lean --- what a handler sends on a stream that was reset.

  A stream is reset by the peer (its worker closes and removes it), by `reset`,
  or by the read task that answers a second SYN_STREAM of its id.  None of them
  leaves a mark that a writer looks at: `write_data` and `poll_shutdown` look at
  `local_fin_sent` only, `send_reply` and `poll_write` at nothing.
-/
import SpdyStream.Session.LocalFin

set_option autoImplicit false

namespace SpdyStream.Session

open SpdyStream.Foundation
open SpdyStream.Framing

variable {H : Type}

/-! ## Resets and later calls -/

/-- The event resets the stream `o` with id `k`: a worker has applied the peer's
RST_STREAM, or the write channel has accepted one from `reset` or from the
rejection of a second SYN_STREAM. -/
def Event.resets (o : Nat) (k : UInt32) : Event H → Bool
  | .worked o' .removeStream => o' = o
  | .enqueued (.call _) (.rstStream r) => r.streamId = k
  | .enqueued .readTask (.rstStream r) =>
      r.streamId = k ∧ (r.status = .protocolError ∨ r.status = .streamInUse)
  | _ => false

/-- A handler makes a call. -/
def Event.isInvocation : Event H → Bool
  | .invoked _ _ => true
  | _ => false

/-- The `j`-th call was not made before the stream was reset. -/
def afterReset (o : Nat) (k : UInt32) : List (Event H) → Nat → Bool
  | [], _ => false
  | e :: es, j => e.resets o k ||
      if e.isInvocation then decide (0 < j) && afterReset o k es (j - 1) else afterReset o k es j

theorem afterReset_iff {o : Nat} {k : UInt32} {evs : List (Event H)} {j : Nat} :
    afterReset o k evs j = true ↔
      ∃ pre r post, evs = pre ++ r :: post ∧ r.resets o k = true ∧
        pre.countP Event.isInvocation ≤ j := by
  induction evs generalizing j with
  | nil => simp [afterReset]
  | cons e es ih =>
      constructor
      · intro h
        rw [afterReset, Bool.or_eq_true] at h
        rcases h with hreset | hlater
        · exact ⟨[], e, es, rfl, hreset, Nat.zero_le _⟩
        · split at hlater
          · rename_i hinv
            rw [Bool.and_eq_true, decide_eq_true_eq] at hlater
            obtain ⟨pre, r, post, rfl, hreset, hcount⟩ := ih.mp hlater.2
            refine ⟨e :: pre, r, post, rfl, hreset, ?_⟩
            rw [List.countP_cons_of_pos hinv]
            omega
          · rename_i hinv
            obtain ⟨pre, r, post, rfl, hreset, hcount⟩ := ih.mp hlater
            refine ⟨e :: pre, r, post, rfl, hreset, ?_⟩
            rwa [List.countP_cons_of_neg hinv]
      · rintro ⟨pre, r, post, heq, hreset, hcount⟩
        rw [afterReset, Bool.or_eq_true]
        cases pre with
        | nil =>
            obtain ⟨rfl, -⟩ := List.cons.inj heq
            exact .inl hreset
        | cons x pre =>
            obtain ⟨rfl, rfl⟩ := List.cons.inj heq
            right
            split
            · rename_i hinv
              rw [List.countP_cons_of_pos hinv] at hcount
              have hj : 0 < j := by omega
              rw [Bool.and_eq_true, decide_eq_true_eq]
              exact ⟨hj, ih.mpr ⟨pre, r, post, rfl, hreset, by omega⟩⟩
            · rename_i hinv
              rw [List.countP_cons_of_neg hinv] at hcount
              exact ih.mpr ⟨pre, r, post, rfl, hreset, hcount⟩

variable {guard : List (Event H) → State H → Action H → Prop} {evs : List (Event H)} {s : State H}

/-- Every call was made by an invocation. -/
theorem calls_length (h : (connection H).Run guard evs s) :
    s.calls.length = evs.countP Event.isInvocation := by
  refine h.invariant (I := fun evs s => s.calls.length = evs.countP Event.isInvocation) rfl ?_
  intro evs es s s' a hrun _ hs ih
  have hnone : (∀ e ∈ es, e.isInvocation = false) → es.countP Event.isInvocation = 0 :=
    fun h => List.countP_eq_zero.mpr fun e he => by simp [h e he]
  rw [List.countP_append, ← ih]
  cases calls_step hrun hs with
  | call j alt c st out action get obj outcome state events =>
      have hes : ∀ e ∈ es, e.isInvocation = false := by
        rw [events]
        intro e he
        obtain ⟨eff, -, rfl⟩ := List.mem_map.mp he
        cases eff with
        | enqueued f => rfl
        | delivered d => rfl
      rw [hnone hes, state, List.length_set]
      rfl
  | cancel j c st st' pc get obj outcome state events =>
      rw [events, state, List.length_set]
      rfl
  | invoke o r mem state events =>
      rw [events, state, List.length_append]
      rfl
  | other calls flag sent invoked =>
      have hes : ∀ e ∈ es, e.isInvocation = false := by
        intro e he
        cases e with
        | invoked o r => exact absurd he (invoked o r)
        | _ => rfl
      rw [hnone hes, calls]
      rfl

/-- A call that is made after a reset was made after one of the past. -/
theorem afterReset_past (h : (connection H).Run guard evs s) {es : List (Event H)} {o : Nat}
    {k : UInt32} {j : Nat} {c : Call H} (hc : s.calls[j]? = some c)
    (hlate : afterReset o k (evs ++ es) j = true) : afterReset o k evs j = true := by
  obtain ⟨pre, r, post, heq, hreset, hcount⟩ := afterReset_iff.mp hlate
  have hj : j < evs.countP Event.isInvocation := by
    rw [← calls_length h]
    exact (List.getElem?_eq_some_iff.mp hc).1
  have hnot : ∀ rest, pre ≠ evs ++ rest := by
    rintro rest rfl
    rw [List.countP_append] at hcount
    omega
  rcases List.append_eq_append_iff.mp heq with ⟨rest, hpre, -⟩ | ⟨rest, hevs, hrest⟩
  · exact absurd hpre (hnot rest)
  · cases rest with
    | nil =>
        rw [List.append_nil] at hevs
        exact absurd (hevs.symm.trans (List.append_nil _).symm) (hnot [])
    | cons x rest =>
        obtain ⟨rfl, -⟩ := List.cons.inj hrest
        exact afterReset_iff.mpr ⟨pre, r, rest, hevs, hreset, hcount⟩

/-! ## Calls that send nothing -/

/-- The call has found `local_fin_sent` not set, and goes on to its send. -/
def CallPc.pastCheck : CallPc H → Bool
  | .writeStoreFin _ | .writeSend _ _ | .shutdownSend => true
  | _ => false

/-- The next operation of a call made after a reset goes no further towards a send:
it is not the send of `send_reply` or `poll_write`, and if it looks at
`local_fin_sent` it finds it set. -/
def CallPc.respectsReset (finSent : Bool) : CallPc H → Bool
  | .replySend _ _ | .pollSend _ => false
  | .writeCheckFin _ _ | .shutdownLoad => finSent
  | _ => true

/-- A call comes past the check only where it does not respect a reset. -/
theorem callStep_pastCheck {alt : Bool} {pc : CallPc H} {st : Stream H} {c : Channel H}
    {out : CallOutcome H} (h : callStep alt pc st c = some out) (hpast : out.pc.pastCheck = true) :
    pc.pastCheck = true ∨
      pc.respectsReset st.localFinSent = false ∧ pc.barred alt c = !c.isOpen := by
  cases call_step h with
  | claimsFin _ | writeSend _ _ _ | shutdownSend => exact .inl rfl
  | replySend _ _ _ => exact .inr ⟨rfl, rfl⟩
  | pollSend buf =>
      rcases tryThen_cases alt c st (dataFrame st buf false) (.returned (.written buf.length)) with
        ⟨r, hr⟩ | ⟨-, -, -, hpc⟩
      · rw [hr] at hpast
        cases hpast
      · rw [hpc] at hpast
        cases hpast
  | checkFin _ sent | checkPlain _ sent | shutdownGoes sent =>
      rw [sent]
      exact .inr ⟨rfl, rfl⟩
  | resetSend _ send =>
      rcases sendThen_cases send with ⟨-, rfl⟩ | ⟨-, -, -, hpc⟩
      · cases hpast
      · rw [hpc] at hpast
        cases hpast
  | _ => cases hpast

theorem callCancel_pastCheck {pc pc' : CallPc H} {st st' : Stream H}
    (h : callCancel pc st = some (pc', st')) : pc'.pastCheck = false := by
  cases pc with
  | replySend _ _ | writeSend _ _ | writeWait _ _ _ | resetSend _ | readLock | readSelect =>
      cases h
      rfl
  | _ => cases h

theorem entry_pastCheck (r : Request H) : r.entry.pastCheck = false := by
  cases r with
  | _ => rfl

/-- A call that sends a response is past the check, or does not respect a reset. -/
theorem sends_pastCheck {pc : CallPc H} {st : Stream H} {f : Frame H} (h : pc.sends st = some f)
    (hf : isResponse f = true) (finSent : Bool) :
    pc.pastCheck = true ∨ pc.respectsReset finSent = false := by
  cases pc with
  | replySend _ _ | pollSend _ => exact .inr rfl
  | writeSend _ _ | shutdownSend => exact .inl rfl
  | resetSend status =>
      cases h
      cases hf
  | _ => cases h

/-- The next operation of a call on stream `o` respects its reset, or the channel takes
nothing from it. -/
def State.resetRespected (o : Nat) (k : UInt32) (evs : List (Event H)) (s : State H) :
    Action H → Bool
  | .call j alt =>
      match s.calls[j]? with
      | none => true
      | some c => decide (c.stream ≠ o) || c.pc.barred alt s.writeChannel ||
          !afterReset o k evs j || c.pc.respectsReset (s.finFlag o)
  | _ => true

/-- The condition under which nothing is sent on stream `o`, of id `k`, by calls
made after it was reset. -/
def ResetRespected (o : Nat) (k : UInt32) (evs : List (Event H)) (s : State H) (a : Action H) :
    Prop := s.resetRespected o k evs a = true

instance (o : Nat) (k : UInt32) (evs : List (Event H)) (s : State H) (a : Action H) :
    Decidable (ResetRespected o k evs s a) := inferInstanceAs (Decidable (_ = true))

theorem ResetRespected.call {o : Nat} {k : UInt32} {j : Nat} {alt : Bool} {c : Call H}
    (h : ResetRespected o k evs s (.call j alt)) (hget : s.calls[j]? = some c)
    (ho : c.stream = o) (hbarred : c.pc.barred alt s.writeChannel = false)
    (hlate : afterReset o k evs j = true) : c.pc.respectsReset (s.finFlag o) = true := by
  simpa [ResetRespected, State.resetRespected, hget, ho, hbarred, hlate] using h

/-- While the channel is open, no call made after the reset is past the check. -/
theorem late_unsent {o : Nat} {k : UInt32} (h : (connection H).Run (ResetRespected o k) evs s)
    (hopen : s.writeChannel.isOpen = true) {j : Nat} {c : Call H} (hget : s.calls[j]? = some c)
    (ho : c.stream = o) (hlate : afterReset o k evs j = true) : c.pc.pastCheck = false := by
  refine h.invariant (I := fun evs s => s.writeChannel.isOpen = true → ∀ j c,
    s.calls[j]? = some c → c.stream = o → afterReset o k evs j = true → c.pc.pastCheck = false)
    ?_ ?_ hopen j c hget ho hlate
  · intro _ j c hget
    cases hget
  · intro evs es s s' a hrun hguard hs ih hopen j c hget ho hlate
    have hbefore := channel_step hs hopen
    have hold : ∀ c, s.calls[j]? = some c → c.stream = o → c.pc.pastCheck = false :=
      fun c hget ho => ih hbefore j c hget ho (afterReset_past hrun hget hlate)
    cases calls_step hrun hs with
    | call i alt c' st out action get obj outcome state events =>
        rw [state, List.getElem?_set] at hget
        split at hget
        · rename_i hij
          subst hij
          split at hget
          · cases hget
            have ho : c'.stream = o := ho
            have hlate' := afterReset_past hrun get hlate
            refine eq_false_of_ne_true fun hpast => ?_
            rcases callStep_pastCheck outcome hpast with hpast' | ⟨hbad, hbarred⟩
            · rw [hold c' get ho] at hpast'
              cases hpast'
            · rw [action] at hguard
              have hgood := hguard.call get ho (by rw [hbarred, hbefore]; rfl) hlate'
              rw [finFlag_of_get (ho ▸ obj), hbad] at hgood
              cases hgood
          · cases hget
        · exact hold c hget ho
    | cancel i c' st st' pc get obj outcome state events =>
        rw [state, List.getElem?_set] at hget
        split at hget
        · split at hget
          · cases hget
            exact callCancel_pastCheck outcome
          · cases hget
        · exact hold c hget ho
    | invoke i r mem state events =>
        rw [state, List.getElem?_append] at hget
        split at hget
        · exact hold c hget ho
        · rw [List.mem_singleton.mp (List.mem_of_getElem? hget)]
          exact entry_pastCheck r
    | other calls flag sent invoked =>
        rw [calls] at hget
        exact hold c hget ho

/-- What a step of a call shows. -/
theorem mem_callEvents {alt : Bool} {pc : CallPc H} {st : Stream H} {c : Channel H}
    {out : CallOutcome H} (h : callStep alt pc st c = some out) {i o : Nat} {e : Event H}
    (he : e ∈ out.effects.map (callEvent i o)) :
    (∃ d, e = .delivered o d) ∨
      ∃ f, e = .enqueued (.call i) f ∧ pc.sends st = some f ∧ c.isOpen = true ∧
        pc.barred alt c = false := by
  obtain ⟨eff, heff, rfl⟩ := List.mem_map.mp he
  cases eff with
  | delivered d => exact .inl ⟨d, rfl⟩
  | enqueued f =>
      obtain ⟨hsends, hopen⟩ := (callStep_keeps h).sent f heff
      exact .inr ⟨f, rfl, hsends, hopen, unbarred_of_sent h heff⟩

/-- A step of a call that sends a response is no reset. -/
theorem callEvents_resets {alt : Bool} {pc : CallPc H} {st : Stream H} {c : Channel H}
    {out : CallOutcome H} (h : callStep alt pc st c = some out) {f : Frame H}
    (hsends : pc.sends st = some f) (hf : isResponse f = true) {i i' o : Nat} {k : UInt32} :
    ∀ r ∈ out.effects.map (callEvent i i'), r.resets o k = false := by
  intro r hr
  rcases mem_callEvents h hr with ⟨d, rfl⟩ | ⟨g, rfl, hg, -⟩
  · rfl
  · rw [hsends] at hg
    cases hg
    cases f with
    | synReply _ | data _ => rfl
    | _ => cases hf

/-- What is not in the second part is in the first. -/
theorem mem_first_of_split {α : Type} {pre mid as bs : List α} {r : α}
    (h : pre ++ r :: mid = as ++ bs) (hr : r ∉ bs) : ∃ rest, as = pre ++ r :: rest := by
  rcases List.append_eq_append_iff.mp h with ⟨rest, has, hmid⟩ | ⟨rest, -, hbs⟩
  · cases rest with
    | nil =>
        rw [List.nil_append] at hmid
        exact absurd (hmid ▸ List.mem_cons_self) hr
    | cons x rest =>
        obtain ⟨rfl, -⟩ := List.cons.inj hmid
        exact ⟨rest, has⟩
  · exact absurd (by simp [hbs]) hr

/-- What the calls send with id `k` after a reset of the stream are no replies and
DATA frames, unless the call was made before. -/
def SilentAfterReset (o : Nat) (k : UInt32) (evs : List (Event H)) : Prop :=
  ∀ pre r post, evs = pre ++ r :: post → r.resets o k = true →
    ∀ j f, .enqueued (.call j) f ∈ post → isResponse f = true → f.target = k →
      j < pre.countP Event.isInvocation

/-- **Silence after a reset.**  If the calls made on a stream after its reset respect
it, then none of them sends a reply or a DATA frame. -/
theorem silent_after_reset {o : Nat} {k : UInt32}
    (h : (connection H).Run (ResetRespected o k) evs s) (hk : s.ids[o]? = some k) :
    SilentAfterReset o k evs := by
  intro pre r post hevs hreset j f hsent hf htarget
  obtain ⟨mid, rest, rfl⟩ := List.append_of_mem hsent
  have hsplit : evs = (pre ++ r :: mid) ++ .enqueued (.call j) f :: rest := by
    rw [hevs, List.append_assoc, List.cons_append]
  obtain ⟨evs₀, s₀, a, s₁, es₁, es₂, hrun, hguard, hs, hpre⟩ := h.step_of_split hsplit
  have hmem : .enqueued (.call j) f ∈ es₁ ++ .enqueued (.call j) f :: es₂ := by simp
  cases calls_step hrun hs with
  | cancel i c st st' pc get obj outcome state events => simp at events
  | invoke i q mem state events =>
      rw [events] at hmem
      cases List.mem_singleton.mp hmem
  | other calls flag sent invoked => exact absurd rfl ((sent (.call j) f hmem).1 j)
  | call i alt c st out action get obj outcome state events =>
      rw [events] at hmem
      rcases mem_callEvents outcome hmem with ⟨d, heq⟩ | ⟨g, heq, hsends, hopen, hbarred⟩
      · cases heq
      · cases heq
        have hbefore : r ∉ es₁ := fun hr => by
          have hr : r ∈ out.effects.map (callEvent j c.stream) := by
            rw [← events]
            exact List.mem_append_left _ hr
          rw [callEvents_resets outcome hsends hf r hr] at hreset
          cases hreset
        obtain ⟨past, rfl⟩ := mem_first_of_split hpre hbefore
        have hid : st.streamId = k := (sends_target hsends).symm.trans htarget
        have hlater := ids_later hrun h (by rw [hsplit, hpre, List.append_assoc]) (ids_of_get obj)
        have ho : c.stream = o := (registry_run h).unique (hid ▸ hlater) hk
        by_contra hle
        have hlate : afterReset o k (pre ++ r :: past) j = true :=
          afterReset_iff.mpr ⟨pre, r, past, rfl, hreset, Nat.not_lt.mp hle⟩
        rcases sends_pastCheck hsends hf (s₀.finFlag o) with hpast | hbad
        · rw [late_unsent hrun hopen get ho hlate] at hpast
          cases hpast
        · rw [action] at hguard
          rw [hguard.call get ho hbarred hlate] at hbad
          cases hbad

/-- The peer cancels stream 1. -/
def plainReset : Frame Unit := .rstStream { streamId := 1, status := .cancel }

/-- A reply with FIN, a reset, and a `write_data` that fails. -/
theorem silent_after_reset_writeFails : ∃ evs s, (connection Unit).Run (ResetRespected 0 1) evs s ∧
    Event.worked 0 .removeStream ∈ evs ∧
    (s.calls[1]?.map Call.pc) = some (.returned (.failed .streamClosed)) ∧
    SilentAfterReset 0 1 evs := by
  obtain ⟨evs, s, h, hcheck⟩ := Machine.exists_run_of_exec (connection Unit) (ResetRespected 0 1)
    (registers (plainSyn 1 0) ++ applies (.synStream (plainSyn 1 0)) ++
      Action.invoke 0 (.sendReply () true) :: calls 0 4 ++
      routes plainReset ++ applies plainReset ++
      Action.invoke 0 (.writeData [1] false) :: calls 1 2)
    (fun evs s => decide (s.ids[0]? = some 1 ∧ Event.worked 0 .removeStream ∈ evs ∧
      (s.calls[1]?.map Call.pc) = some (.returned (.failed .streamClosed))))
    (by decide +kernel)
  obtain ⟨hid, hreset, hpc⟩ := of_decide_eq_true hcheck
  exact ⟨evs, s, h, hreset, hpc, silent_after_reset h hid⟩

/-- A reply without payload. -/
def plainReply : Frame Unit := .synReply { streamId := 1, headers := (), flags := 0 }

/-- After the worker has applied the peer's RST_STREAM a `send_reply` is accepted. -/
theorem replies_after_reset : ¬ ∀ evs (s : State Unit) (o : Nat) (k : UInt32),
    (connection Unit).Reached evs s → s.ids[o]? = some k → SilentAfterReset o k evs := by
  intro hall
  obtain ⟨evs, s, h, hcheck⟩ := Machine.exists_run_of_exec (connection Unit) Machine.free
    (registers (plainSyn 1 0) ++ applies (.synStream (plainSyn 1 0)) ++
      routes plainReset ++ applies plainReset ++ Action.invoke 0 (.sendReply () false) :: calls 0 1)
    (fun evs s => decide (s.ids[0]? = some 1 ∧
      evs.drop 10 = [.worked 0 .removeStream, .removed 0 (some 0),
        .invoked 0 (.sendReply () false), .enqueued (.call 0) plainReply] ∧
      (evs.take 10).countP Event.isInvocation = 0))
    (by decide +kernel)
  obtain ⟨hid, hpost, hcount⟩ := of_decide_eq_true hcheck
  have hsplit := (List.take_append_drop 10 evs).symm
  rw [hpost] at hsplit
  have hlt := hall evs s 0 1 h hid _ _ _ hsplit rfl 0 plainReply (by simp) rfl rfl
  rw [hcount] at hlt
  cases hlt

end SpdyStream.Session
