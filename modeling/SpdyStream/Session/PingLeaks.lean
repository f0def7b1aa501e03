/-
  Session/PingLeaks.lean --- the senders that `ping_map` holds.

  A call of `ping` enters its sender, and an echo of its id removes it.  The two error
  exits leave the sender where it is.  A call that awaits an echo is always known to
  the map; when no call gives up, the map knows these calls only.
-/
import SpdyStream.Session.Pings

set_option autoImplicit false

namespace SpdyStream.Session

open SpdyStream.Foundation
open SpdyStream.Framing

variable {H : Type}

/-! ## Calls that wait -/

theorem PingCall.waitsFor_signal (p : PingCall) {rx : Oneshot} (hrx : rx ≠ .waiting) :
    (p.signal rx).waitsFor = none := by
  cases rx with
  | waiting => exact absurd rfl hrx
  | fired | dropped =>
      cases p with
      | _ => rfl

theorem PingCall.id_of_waitsFor {p : PingCall} {i : UInt32} (h : p.waitsFor = some i) :
    p.id = some i := by
  cases p with
  | send _ rx | wait _ rx =>
      cases rx with
      | waiting => exact h
      | fired | dropped => cases h
  | _ => cases h

/-- A call that waits after a sender was used up has waited before, and has another
sender. -/
theorem signalPing_waits {s : State H} {i₀ i : UInt32} {rx : Oneshot} {k : Nat} {p : PingCall}
    (h : (s.signalPing i₀ rx).pings[k]? = some p) (hrx : rx ≠ .waiting)
    (hwaits : p.waitsFor = some i) : s.pings[k]? = some p ∧ s.pingMap.lookup i₀ ≠ some k := by
  rw [signalPing_get] at h
  split at h
  · obtain ⟨q, -, rfl⟩ := Option.map_eq_some_iff.mp h
    rw [q.waitsFor_signal hrx] at hwaits
    cases hwaits
  · rename_i hother
    exact ⟨h, hother⟩

/-- Every call that awaits an echo is known to the map. -/
def AllKnown (s : State H) : Prop :=
  ∀ k p i, s.pings[k]? = some p → p.waitsFor = some i → s.pingMap.lookup i = some k

/-- The map knows only calls that await an echo. -/
def OnlyWaiting (s : State H) : Prop :=
  ∀ i k, s.pingMap.lookup i = some k → ∃ p, s.pings[k]? = some p ∧ p.waitsFor = some i

theorem allKnown_step {s s' : State H} {a : Action H} {es : List (Event H)}
    (hs : s.step a = some (s', es)) (h : AllKnown s) : AllKnown s' := by
  intro k p i hp hwaits
  cases pings_step hs with
  | same pings map next =>
      rw [map]
      exact h k p i (pings ▸ hp) hwaits
  | call pings map next =>
      rw [pings] at hp
      rw [map]
      rcases Nat.lt_or_ge k s.pings.length with hlt | hge
      · rw [List.getElem?_append_left hlt] at hp
        exact h k p i hp hwaits
      · rw [List.getElem?_append_right hge, List.getElem?_singleton] at hp
        split at hp
        · cases hp
          cases hwaits
        · cases hp
  | fetch j action get pings map next =>
      rw [pings] at hp
      rw [map]
      rcases getElem?_of_set hp with ⟨-, rfl⟩ | hbefore
      · cases hwaits
      · exact h k p i hbefore hwaits
  | insert j i₀ action get pings map next =>
      rw [pings] at hp
      rw [map]
      rcases getElem?_of_set hp with ⟨rfl, rfl⟩ | hsignal
      · cases hwaits
        exact AList.lookup_insert _
      · obtain ⟨hbefore, hother⟩ := signalPing_waits hsignal (by simp) hwaits
        have hknown := h k p i hbefore hwaits
        have hne : i ≠ i₀ := fun heq => hother (heq ▸ hknown)
        rw [AList.lookup_insert_ne hne, signalPing_lookup, if_neg hne]
        exact hknown
  | goesOn j q q' get pings on waits map next =>
      rw [pings] at hp
      rw [map]
      rcases getElem?_of_set hp with ⟨rfl, rfl⟩ | hbefore
      · rcases waits with hsame | ⟨⟨r, rfl⟩, -⟩
        · exact h j q i get (hsame ▸ hwaits)
        · cases hwaits
      · exact h k p i hbefore hwaits
  | resolve i₀ pick action pc pings map next =>
      rw [pings] at hp
      rw [map]
      obtain ⟨hbefore, hother⟩ := signalPing_waits hp (by simp) hwaits
      have hknown := h k p i hbefore hwaits
      have hne : i ≠ i₀ := fun heq => hother (heq ▸ hknown)
      rw [signalPing_lookup, if_neg hne]
      exact hknown

/-- A call that waits under another id is not touched when a sender is used up. -/
theorem OnlyWaiting.untouched {s : State H} (h : OnlyWaiting s) {i₀ i : UInt32} (hne : i ≠ i₀)
    {rx : Oneshot} {k : Nat} {p : PingCall} (hp : s.pings[k]? = some p)
    (hwaits : p.waitsFor = some i) : (s.signalPing i₀ rx).pings[k]? = some p := by
  rw [signalPing_get, if_neg, hp]
  intro hknown
  obtain ⟨q, hq, hqwaits⟩ := h i₀ k hknown
  cases hp.symm.trans hq
  exact hne (Option.some.inj (hwaits.symm.trans hqwaits))

theorem onlyWaiting_step {s s' : State H} {a : Action H} {es : List (Event H)}
    (hs : s.step a = some (s', es)) (hstays : s.givesUpPing a = none) (h : OnlyWaiting s) :
    OnlyWaiting s' := by
  intro i k hknown
  -- a call that waits is at no place that has to do with another's step
  have hset : ∀ {j : Nat} {q x : PingCall} {l : List PingCall}, s.pings[j]? = some q →
      q.waitsFor = none → s.pingMap.lookup i = some k →
      (∀ p, s.pings[k]? = some p → p.waitsFor = some i → l[k]? = some p) →
      ∃ p, (l.set j x)[k]? = some p ∧ p.waitsFor = some i := by
    intro j q x l hq hnot hbefore hl
    obtain ⟨p, hp, hwaits⟩ := h i k hbefore
    have hne : j ≠ k := by
      rintro rfl
      cases hp.symm.trans hq
      cases hnot.symm.trans hwaits
    exact ⟨p, by rw [List.getElem?_set_ne hne]; exact hl p hp hwaits, hwaits⟩
  cases pings_step hs with
  | same pings map next =>
      rw [pings]
      exact h i k (map ▸ hknown)
  | call pings map next =>
      rw [map] at hknown
      obtain ⟨p, hp, hwaits⟩ := h i k hknown
      refine ⟨p, ?_, hwaits⟩
      rw [pings, List.getElem?_append_left (List.getElem?_eq_some_iff.mp hp).1]
      exact hp
  | fetch j action get pings map next =>
      rw [map] at hknown
      rw [pings]
      exact hset get rfl hknown fun p hp _ => hp
  | insert j i₀ action get pings map next =>
      rw [map] at hknown
      rw [pings]
      by_cases hi : i = i₀
      · subst hi
        rw [AList.lookup_insert] at hknown
        cases hknown
        refine ⟨.send i .waiting, List.getElem?_set_self ?_, rfl⟩
        rw [signalPing_length]
        exact (List.getElem?_eq_some_iff.mp get).1
      · rw [AList.lookup_insert_ne hi, signalPing_lookup, if_neg hi] at hknown
        exact hset get rfl hknown fun p hp hwaits => h.untouched hi hp hwaits
  | goesOn j q q' get pings on waits map next =>
      rw [map] at hknown
      rw [pings]
      rcases waits with hsame | ⟨-, hgives⟩
      · obtain ⟨p, hp, hwaits⟩ := h i k hknown
        by_cases hj : j = k
        · subst hj
          cases hp.symm.trans get
          exact ⟨q', List.getElem?_set_self (List.getElem?_eq_some_iff.mp get).1,
            hsame.trans hwaits⟩
        · exact ⟨p, by rw [List.getElem?_set_ne hj]; exact hp, hwaits⟩
      · rw [hstays] at hgives
        cases hgives
  | resolve i₀ pick action pc pings map next =>
      rw [map, signalPing_lookup] at hknown
      rw [pings]
      split at hknown
      · cases hknown
      · rename_i hi
        obtain ⟨p, hp, hwaits⟩ := h i k hknown
        exact ⟨p, h.untouched hi hp hwaits, hwaits⟩

variable {guard : List (Event H) → State H → Action H → Prop} {evs : List (Event H)}
  {hist : List (TakenStep H)} {s : State H}

theorem allKnown_run (h : (connection H).Run guard evs s) : AllKnown s := by
  refine h.invariant (I := fun _ s => AllKnown s) ?_ ?_
  · intro k p i hp
    cases hp
  · intro evs es s s' a _ _ hs ih
    exact allKnown_step hs ih

theorem onlyWaiting_history (h : (connection H).History guard hist s)
    (hstay : ∀ t ∈ hist, t.before.givesUpPing t.action = none) : OnlyWaiting s := by
  refine h.invariant (I := fun hist s =>
    (∀ t ∈ hist, t.before.givesUpPing t.action = none) → OnlyWaiting s) ?_ ?_ hstay
  · intro _ i k hknown
    cases hknown
  · intro hist t _ _ hs ih hstay
    exact onlyWaiting_step hs (hstay t (by simp)) (ih fun u hu => hstay u (by simp [hu]))

/-! ## Returned calls -/

/-- The map holds no sender of a call that has returned. -/
structure PingsCleared (hist : List (TakenStep H)) (s : State H) : Prop where
  own : ∀ k r i, s.pings[k]? = some (.returned r) → s.pingMap.lookup i ≠ some k
  /-- nor any other under its id: while ids do not wrap around, no call shares it -/
  id : s.pings.length < 2 ^ 31 → ∀ k r i, s.pings[k]? = some (.returned r) →
    (k, i) ∈ takenIds hist → s.pingMap.lookup i = none
  /-- when all calls have returned the map is empty -/
  idle : (∀ p ∈ s.pings, ∃ r, p = .returned r) → s.pingMap.keys = []

theorem OnlyWaiting.cleared (h : OnlyWaiting s) (hhist : (connection H).History guard hist s) :
    PingsCleared hist s := by
  refine ⟨fun k r i hr hknown => ?_, fun hfew k r i hr htaken => ?_, fun hall => ?_⟩
  · obtain ⟨p, hp, hwaits⟩ := h i k hknown
    cases hr.symm.trans hp
    cases hwaits
  · cases hlookup : s.pingMap.lookup i with
    | none => rfl
    | some j =>
        obtain ⟨p, hp, hwaits⟩ := h i j hlookup
        have hown := (allocated hhist).own j p i hp (PingCall.id_of_waitsFor hwaits)
        obtain rfl := (allocated hhist).distinct hfew htaken hown
        cases hr.symm.trans hp
        cases hwaits
  · refine List.eq_nil_iff_forall_not_mem.mpr fun i hi => ?_
    obtain ⟨k, hknown⟩ := Option.isSome_iff_exists.mp (AList.lookup_isSome.mpr hi)
    obtain ⟨p, hp, hwaits⟩ := h i k hknown
    obtain ⟨r, rfl⟩ := hall p (List.mem_of_getElem? hp)
    cases hwaits

/-- A call that gives up has returned, and its sender is still in the map. -/
theorem leaked_of_givesUp (hrun : (connection H).Run guard evs s) {s' : State H} {a : Action H}
    {es : List (Event H)} (hs : s.step a = some (s', es)) {k : Nat}
    (hgives : s.givesUpPing a = some k) :
    ∃ r i, s'.pings[k]? = some (.returned r) ∧ s'.pingMap.lookup i = some k := by
  have hknown := allKnown_run hrun
  cases a with
  | pingStep j =>
      simp only [State.givesUpPing] at hgives
      split at hgives
      · rename_i i hget
        split at hgives
        · cases hgives
        · rename_i hclosed
          cases hgives
          have hsend : s.writeChannel.send (.ping { id := i }) = .closed := by
            rw [Channel.send, if_pos (eq_false_of_ne_true hclosed)]
          simp only [State.step, State.stepPing, hget, hsend] at hs
          cases hs
          exact ⟨_, i, List.getElem?_set_self (List.getElem?_eq_some_iff.mp hget).1,
            hknown k _ i hget rfl⟩
      · cases hgives
  | pingTimeout j =>
      simp only [State.givesUpPing] at hgives
      split at hgives
      · rename_i i hget
        cases hgives
        simp only [State.step, State.timeoutPing, hget] at hs
        cases hs
        exact ⟨_, i, List.getElem?_set_self (List.getElem?_eq_some_iff.mp hget).1,
          hknown k _ i hget rfl⟩
      · cases hgives
  | _ => cases hgives

/-- **Leaks.**  After every step of a history `ping_map` holds no sender of a returned
call, if and only if in no step a call gives up: its send finds the channel closed,
or it times out, while its sender is in the map. -/
theorem pingsCleared_iff (h : (connection H).History Machine.free hist s) :
    (∀ pre t post, hist = pre ++ t :: post → PingsCleared (pre ++ [t]) t.after) ↔
      ∀ t ∈ hist, t.before.givesUpPing t.action = none := by
  constructor
  · intro hcleared t ht
    obtain ⟨pre, post, heq⟩ := List.append_of_mem ht
    obtain ⟨hpre, -, hs⟩ := h.split heq
    cases hgives : t.before.givesUpPing t.action with
    | none => rfl
    | some k =>
        obtain ⟨r, i, hreturned, hknown⟩ := leaked_of_givesUp hpre.run hs hgives
        exact absurd hknown ((hcleared pre t post heq).own k r i hreturned)
  · intro hstay pre t post heq
    obtain ⟨hnow, hsteps⟩ := h.upTo heq
    exact (onlyWaiting_history hnow fun u hu => hstay u (hsteps u hu)).cleared hnow

/-- One call is answered; the send of another finds the channel closed, but its sender
was used up before. -/
theorem pingsCleared_answered : ∃ hist s, (connection Unit).History Machine.free hist s ∧
    s.pings = [.returned .ok, .returned (.failed .connectionClosed)] ∧ s.pingMap.keys = [] ∧
    ∀ pre t post, hist = pre ++ t :: post → PingsCleared (pre ++ [t]) t.after := by
  let echo (id : UInt32) : List (Action Unit) := [.read (.ping { id := id }), .readTask 0]
  obtain ⟨hist, s, h, hcheck⟩ := Machine.exists_history_of_trace (connection Unit) Machine.free
    ([Action.ping, .ping, .pingStep 0, .pingStep 0, .pingStep 0, .pingStep 1, .pingStep 1] ++
      echo 2 ++ echo 4 ++ [Action.writeFail, .pingStep 1, .pingStep 0])
    (fun hist s => decide (s.pings = [.returned .ok, .returned (.failed .connectionClosed)] ∧
      s.pingMap.keys = [] ∧ ∀ t ∈ hist, t.before.givesUpPing t.action = none))
    (by decide +kernel)
  obtain ⟨hpings, hkeys, hstay⟩ := of_decide_eq_true hcheck
  exact ⟨hist, s, h, hpings, hkeys, (pingsCleared_iff h).mpr hstay⟩

/-- A call that is not answered times out, and its sender stays. -/
theorem pings_leak : ¬ ∀ hist (s : State Unit), (connection Unit).History Machine.free hist s →
    PingsCleared hist s := by
  intro hall
  obtain ⟨hist, s, h, hcheck⟩ := Machine.exists_history_of_trace (connection Unit) Machine.free
    [Action.ping, .pingStep 0, .pingStep 0, .pingStep 0, .write, .pingTimeout 0]
    (fun _ s => decide (s.pings = [.returned (.failed (.protocol "ping timeout"))] ∧
      s.pingMap.keys = [2]))
    (by decide +kernel)
  obtain ⟨hpings, hkeys⟩ := of_decide_eq_true hcheck
  have hidle := (hall hist s h).idle (by simp [hpings])
  rw [hkeys] at hidle
  cases hidle

end SpdyStream.Session
