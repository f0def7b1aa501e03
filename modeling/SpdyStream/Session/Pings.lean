/-
  Session/Pings.lean --- the calls of `ping` and the echoes of the peer.

  Every call has an id of its own, and it returns `Ok` only behind an echo of this id
  that has fired it (`pingsMatched`).
-/
import SpdyStream.Session.PingSteps

set_option autoImplicit false

namespace SpdyStream.Session

open SpdyStream.Foundation
open SpdyStream.Framing

variable {H : Type}

/-! ## Ids -/

/-- The `n`-th id of the counter. -/
def pingId (n : Nat) : UInt32 := UInt32.ofNat (2 + 2 * n)

theorem pingId_succ (n : Nat) : pingId (n + 1) = pingId n + 2 := by
  rw [pingId, Nat.mul_succ, ← Nat.add_assoc, UInt32.ofNat_add]
  rfl

theorem pingId_even (n : Nat) : pingId n % 2 = 0 := by
  apply UInt32.toNat.inj
  rw [UInt32.toNat_mod, pingId, UInt32.toNat_ofNat']
  show (2 + 2 * n) % 2 ^ 32 % 2 = 0
  omega

/-- The counter comes back to an id after `2^31` calls. -/
theorem pingId_injective {m n : Nat} (hm : m < 2 ^ 31) (hn : n < 2 ^ 31)
    (h : pingId m = pingId n) : m = n := by
  have htoNat := congrArg UInt32.toNat h
  rw [pingId, pingId, UInt32.toNat_ofNat', UInt32.toNat_ofNat'] at htoNat
  omega

/-- The call that takes an id in a step, and the id. -/
def State.takesPing (s : State H) : Action H → List (Nat × UInt32)
  | .pingStep k =>
      match s.pings[k]? with
      | some .fetchId => [(k, s.nextPingId)]
      | _ => []
  | _ => []

/-- The ids that calls have taken, in order. -/
def takenIds (hist : List (TakenStep H)) : List (Nat × UInt32) :=
  hist.flatMap fun t => t.before.takesPing t.action

theorem takenIds_concat (hist : List (TakenStep H)) (t : TakenStep H) :
    takenIds (hist ++ [t]) = takenIds hist ++ t.before.takesPing t.action := by
  rw [takenIds, List.flatMap_append, List.flatMap_singleton]
  rfl

theorem takesPing_of_fetch {s : State H} {k : Nat} (get : s.pings[k]? = some .fetchId) :
    s.takesPing (.pingStep k) = [(k, s.nextPingId)] := by
  simp only [State.takesPing, get]

/-- What is known of the ids that have been taken. -/
structure Allocated (hist : List (TakenStep H)) (s : State H) : Prop where
  ids : (takenIds hist).map Prod.snd = (List.range (takenIds hist).length).map pingId
  next : s.nextPingId = pingId (takenIds hist).length
  past : ∀ k i, (k, i) ∈ takenIds hist → ∃ p, s.pings[k]? = some p ∧ p ≠ .fetchId
  calls : ((takenIds hist).map Prod.fst).Nodup
  own : ∀ k p i, s.pings[k]? = some p → p.id = some i → (k, i) ∈ takenIds hist

theorem PingCall.id_signal (p : PingCall) (rx : Oneshot) : (p.signal rx).id = p.id := by
  cases p with
  | _ => rfl

theorem PingCall.signal_ne_fetchId {p : PingCall} (h : p ≠ .fetchId) (rx : Oneshot) :
    p.signal rx ≠ .fetchId := by
  cases p with
  | fetchId => exact absurd rfl h
  | _ =>
      intro hfetch
      cases hfetch

/-- A call does not come back to where it has left, and is not taken away. -/
theorem ping_stays {Q : PingCall → Prop} (fetch : ¬ Q .fetchId)
    (signal : ∀ p rx, Q p → Q (p.signal rx)) (entered : ∀ p, p.isEntered = true → Q p)
    {s s' : State H} {a : Action H} {es : List (Event H)} (hs : s.step a = some (s', es)) {k : Nat}
    {p : PingCall} (get : s.pings[k]? = some p) (hp : Q p) :
    ∃ p', s'.pings[k]? = some p' ∧ Q p' := by
  obtain ⟨hk, -⟩ := List.getElem?_eq_some_iff.mp get
  obtain ⟨p₁, hnow⟩ : ∃ p₁, s'.pings[k]? = some p₁ :=
    ⟨_, List.getElem?_eq_getElem (Nat.lt_of_lt_of_le hk (pings_length hs))⟩
  refine ⟨p₁, hnow, ?_⟩
  cases pingCall_step hs hnow with
  | made fresh => cases get.symm.trans fresh
  | still _ get' =>
      cases get.symm.trans get'
      exact hp
  | took action get' =>
      cases get.symm.trans get'
      exact absurd hp fetch
  | enters i action get' => exact entered _ rfl
  | goesOn _ _ get' on => exact entered _ on.entered.2
  | dropped p' get' =>
      cases get.symm.trans get'
      exact signal _ _ hp
  | fired i pick p' action pc known get' =>
      cases get.symm.trans get'
      exact signal _ _ hp

/-- A call that has its id does not come back to the counter. -/
theorem past_stays {s s' : State H} {a : Action H} {es : List (Event H)}
    (hs : s.step a = some (s', es)) {k : Nat} {p : PingCall} (get : s.pings[k]? = some p)
    (hp : p ≠ .fetchId) : ∃ p', s'.pings[k]? = some p' ∧ p' ≠ .fetchId := by
  refine ping_stays (Q := (· ≠ .fetchId)) (fun hfetch => hfetch rfl)
    (fun p rx hp => PingCall.signal_ne_fetchId hp rx) (fun p hentered => ?_) hs get hp
  rintro rfl
  cases hentered

/-- A call that has entered its sender does not enter it again. -/
theorem entered_stays {s s' : State H} {a : Action H} {es : List (Event H)}
    (hs : s.step a = some (s', es)) {k : Nat} {p : PingCall} (get : s.pings[k]? = some p)
    (hp : p.isEntered = true) : ∃ p', s'.pings[k]? = some p' ∧ p'.isEntered = true := by
  refine ping_stays (Q := fun p => p.isEntered = true) Bool.false_ne_true (fun p rx hp => ?_)
    (fun _ => id) hs get hp
  cases p with
  | _ => exact hp

/-- A step that is no `fetch_add` gives no call an id. -/
theorem pingId_before {s s' : State H} {a : Action H} {es : List (Event H)}
    (hs : s.step a = some (s', es)) (hnone : s.takesPing a = []) {k : Nat} {p' : PingCall}
    {i : UInt32} (h : s'.pings[k]? = some p') (hid : p'.id = some i) :
    ∃ p, s.pings[k]? = some p ∧ p.id = some i := by
  cases pingCall_step hs h with
  | made fresh => cases hid
  | still p get => exact ⟨p', get, hid⟩
  | took action get =>
      rw [action, takesPing_of_fetch get] at hnone
      cases hnone
  | enters i' action get => exact ⟨_, get, hid⟩
  | goesOn p p' get on =>
      refine ⟨p, get, ?_⟩
      rcases on.id with hsame | hnot
      · exact hsame ▸ hid
      · cases hnot.symm.trans hid
  | dropped p get => exact ⟨p, get, (p.id_signal _).symm.trans hid⟩
  | fired i' pick p action pc known get => exact ⟨p, get, (p.id_signal _).symm.trans hid⟩

variable {guard : List (Event H) → State H → Action H → Prop} {hist : List (TakenStep H)}
  {s : State H}

/-- A `fetch_add` gives the next id to a call that has none. -/
theorem Allocated.fetch {k : Nat} {t : TakenStep H} (h : Allocated hist t.before)
    (hs : t.before.step t.action = some (t.after, t.events)) (action : t.action = .pingStep k)
    (get : t.before.pings[k]? = some .fetchId) : Allocated (hist ++ [t]) t.after := by
  have htaken := takesPing_of_fetch get
  have hstep := hs
  rw [action] at hstep
  simp only [State.step, State.stepPing, get] at hstep
  obtain ⟨hafter, -⟩ := Prod.mk.inj (Option.some.inj hstep)
  have hpings : t.after.pings = t.before.pings.set k (.insert t.before.nextPingId) := by
    rw [← hafter]
    rfl
  have hnext : t.after.nextPingId = t.before.nextPingId + 2 := by
    rw [← hafter]
    rfl
  have hk : k < t.before.pings.length := (List.getElem?_eq_some_iff.mp get).1
  have hself : t.after.pings[k]? = some (.insert t.before.nextPingId) := by
    rw [hpings, List.getElem?_set_self hk]
  refine ⟨?_, ?_, ?_, ?_, ?_⟩
  · rw [takenIds_concat, action, htaken, List.map_append, h.ids, List.length_append,
      List.length_singleton, List.range_succ, List.map_append, h.next]
    rfl
  · rw [takenIds_concat, action, htaken, hnext, h.next, List.length_append,
      List.length_singleton, pingId_succ]
  · intro j i hmem
    rw [takenIds_concat, action, htaken, List.mem_append] at hmem
    rcases hmem with hmem | hmem
    · obtain ⟨p, hp, hpast⟩ := h.past j i hmem
      exact past_stays hs hp hpast
    · cases List.mem_singleton.mp hmem
      exact ⟨_, hself, by simp⟩
  · rw [takenIds_concat, action, htaken, List.map_append]
    refine List.nodup_append.mpr ⟨h.calls, List.nodup_singleton _, ?_⟩
    rintro j hj _ hmem rfl
    obtain ⟨⟨j', i⟩, hold, rfl⟩ := List.mem_map.mp hj
    obtain ⟨p, hp, hpast⟩ := h.past j' i hold
    cases List.mem_singleton.mp hmem
    exact hpast (Option.some.inj (hp.symm.trans get))
  · intro j p i hp hid
    rw [takenIds_concat, action, htaken, List.mem_append]
    rw [hpings] at hp
    rcases getElem?_of_set hp with ⟨rfl, rfl⟩ | hbefore
    · cases hid
      exact .inr (List.mem_singleton_self _)
    · exact .inl (h.own j p i hbefore hid)

theorem Allocated.others {t : TakenStep H} (h : Allocated hist t.before)
    (hs : t.before.step t.action = some (t.after, t.events))
    (hnone : t.before.takesPing t.action = []) : Allocated (hist ++ [t]) t.after := by
  have hsame : takenIds (hist ++ [t]) = takenIds hist := by
    rw [takenIds_concat, hnone, List.append_nil]
  refine ⟨?_, ?_, ?_, ?_, ?_⟩
  · rw [hsame]
    exact h.ids
  · rw [hsame, ← h.next]
    cases pings_step hs with
    | fetch k action get pings map next =>
        rw [action, takesPing_of_fetch get] at hnone
        cases hnone
    | _ => assumption
  · intro k i hmem
    rw [hsame] at hmem
    obtain ⟨p, hp, hpast⟩ := h.past k i hmem
    exact past_stays hs hp hpast
  · rw [hsame]
    exact h.calls
  · intro k p' i hp' hid
    obtain ⟨p, hp, hpid⟩ := pingId_before hs hnone hp' hid
    rw [hsame]
    exact h.own k p i hp hpid

theorem allocated (h : (connection H).History guard hist s) : Allocated hist s := by
  refine h.invariant (I := Allocated) ?_ ?_
  · refine ⟨rfl, rfl, fun k i hmem => ?_, List.nodup_nil, fun k p i hp => ?_⟩
    · cases hmem
    · cases hp
  · intro hist t _ _ hs ih
    by_cases hfetch : ∃ k, t.action = .pingStep k ∧ t.before.pings[k]? = some .fetchId
    · obtain ⟨k, action, get⟩ := hfetch
      exact ih.fetch hs action get
    · refine ih.others hs ?_
      unfold State.takesPing
      split
      · rename_i k action
        split
        · rename_i get
          exact absurd ⟨k, action, get⟩ hfetch
        · rfl
      · rfl

theorem Allocated.length_le (h : Allocated hist s) : (takenIds hist).length ≤ s.pings.length := by
  have hsub : (takenIds hist).map Prod.fst ⊆ List.range s.pings.length := fun k hk => by
    obtain ⟨⟨j, i⟩, hmem, rfl⟩ := List.mem_map.mp hk
    obtain ⟨p, hp, -⟩ := h.past j i hmem
    exact List.mem_range.mpr (List.getElem?_eq_some_iff.mp hp).1
  have hlen := (List.subperm_of_subset h.calls hsub).length_le
  rwa [List.length_map, List.length_range] at hlen

theorem Allocated.even (h : Allocated hist s) {k : Nat} {i : UInt32}
    (hmem : (k, i) ∈ takenIds hist) : i % 2 = 0 := by
  have hi := List.mem_map_of_mem (f := Prod.snd) hmem
  rw [h.ids] at hi
  obtain ⟨n, -, rfl⟩ := List.mem_map.mp hi
  exact pingId_even n

/-- A call takes one id. -/
theorem Allocated.one (h : Allocated hist s) {k : Nat} {i i' : UInt32}
    (hi : (k, i) ∈ takenIds hist) (hi' : (k, i') ∈ takenIds hist) : i = i' :=
  congrArg Prod.snd (List.inj_on_of_nodup_map h.calls hi hi' rfl)

/-- Fewer than `2^31` calls take different ids. -/
theorem Allocated.distinct (h : Allocated hist s) (hfew : s.pings.length < 2 ^ 31) {k k' : Nat}
    {i : UInt32} (hk : (k, i) ∈ takenIds hist) (hk' : (k', i) ∈ takenIds hist) : k = k' := by
  have hnodup : ((takenIds hist).map Prod.snd).Nodup := by
    rw [h.ids]
    refine List.Nodup.map_on (fun m hm n hn heq => ?_) List.nodup_range
    have hbound := h.length_le
    rw [List.mem_range] at hm hn
    exact pingId_injective (by omega) (by omega) heq
  exact congrArg Prod.fst (List.inj_on_of_nodup_map hnodup hk hk' rfl)

/-! ## Echoes -/

/-- Call `k` of `ping` holds the id `i` after the step. -/
def usesPing (k : Nat) (i : UInt32) (t : TakenStep H) : Prop :=
  ∃ p, t.after.pings[k]? = some p ∧ p.id = some i

/-- In the step call `k` enters its sender into the map under the id `i`. -/
def entersPing (k : Nat) (i : UInt32) (t : TakenStep H) : Prop :=
  t.action = .pingStep k ∧ t.before.pings[k]? = some (.insert i)

/-- In the step the read task processes a PING with the even id `i`. -/
def resolvesPing (i : UInt32) (t : TakenStep H) : Prop :=
  (∃ pick, t.action = .readTask pick) ∧ t.before.readTask = .resolvePing i

/-- The step completes call `k`: its sender is fired. -/
def firesPing (k : Nat) (t : TakenStep H) : Prop :=
  (∃ p, t.before.pings[k]? = some p ∧ p.isFired = false) ∧
    ∃ p, t.after.pings[k]? = some p ∧ p.isFired = true

/-- In the step call `k` returns `Ok`. -/
def returnsOk (k : Nat) (t : TakenStep H) : Prop :=
  t.before.pings[k]? ≠ some (.returned .ok) ∧ t.after.pings[k]? = some (.returned .ok)

/-- Call `k` enters its sender under the id `i`, and later a PING with this id is
processed and completes the call. -/
def Echoed (k : Nat) (i : UInt32) (hist : List (TakenStep H)) : Prop :=
  ∃ a r b e c, hist = (a ++ r :: b) ++ e :: c ∧ entersPing k i r ∧ resolvesPing i e ∧
    firesPing k e

theorem Echoed.concat {k : Nat} {i : UInt32} (h : Echoed k i hist) (t : TakenStep H) :
    Echoed k i (hist ++ [t]) := by
  obtain ⟨a, r, b, e, c, rfl, henters, hresolves, hfires⟩ := h
  exact ⟨a, r, b, e, c ++ [t], by simp, henters, hresolves, hfires⟩

theorem PingCall.isFired_dropped (p : PingCall) : (p.signal .dropped).isFired = false := by
  cases p with
  | _ => rfl

/-- A call is completed by the PING under whose id it stands in the map. -/
theorem known_of_fires {t : TakenStep H}
    (hs : t.before.step t.action = some (t.after, t.events)) {k : Nat} (h : firesPing k t) :
    ∃ i, resolvesPing i t ∧ t.before.pingMap.lookup i = some k := by
  obtain ⟨⟨p, hp, hnot⟩, p', hp', hfired⟩ := h
  cases pingCall_step hs hp' with
  | still p' get =>
      cases hp.symm.trans get
      cases hnot.symm.trans hfired
  | goesOn p₀ p' get on =>
      cases hp.symm.trans get
      cases hnot.symm.trans (on.fired hfired)
  | dropped p₀ get => cases (p₀.isFired_dropped).symm.trans hfired
  | fired i pick p₀ action pc known get => exact ⟨i, ⟨⟨pick, action⟩, pc⟩, known⟩
  | made _ | took _ _ | enters _ _ _ => cases hfired

/-- Only a call that was completed returns `Ok`. -/
theorem fired_of_returns {t : TakenStep H}
    (hs : t.before.step t.action = some (t.after, t.events)) {k : Nat} (h : returnsOk k t) :
    ∃ i, t.before.pings[k]? = some (.wait i .fired) := by
  obtain ⟨hnot, hok⟩ := h
  have hsignal : ∀ (p : PingCall) rx, p.signal rx = .returned .ok → p = .returned .ok :=
    fun p rx heq => by
      cases p with
      | returned r => exact heq
      | _ => cases heq
  generalize hp' : PingCall.returned .ok = p' at hok
  cases pingCall_step hs hok with
  | still p get => exact absurd (hp' ▸ get) hnot
  | goesOn p p' get on =>
      obtain ⟨i, rfl⟩ := on.ok hp'.symm
      exact ⟨i, get⟩
  | dropped p get => exact absurd (hsignal p _ hp'.symm ▸ get) hnot
  | fired i pick p action pc known get => exact absurd (hsignal p _ hp'.symm ▸ get) hnot
  | made _ | took _ _ | enters _ _ _ => cases hp'

/-- A sender that stands in the map was entered by its call. -/
theorem entered_of_known (h : (connection H).History guard hist s) {i : UInt32} {k : Nat}
    (hknown : s.pingMap.lookup i = some k) : ∃ r ∈ hist, entersPing k i r := by
  refine h.invariant (I := fun hist s => ∀ i k, s.pingMap.lookup i = some k →
    ∃ r ∈ hist, entersPing k i r) ?_ ?_ i k hknown
  · intro i k hknown
    cases hknown
  · intro hist t _ _ hs ih i k hknown
    rcases pingMap_step hs hknown with hbefore | henters
    · obtain ⟨r, hr, henters⟩ := ih i k hbefore
      exact ⟨r, List.mem_append_left _ hr, henters⟩
    · exact ⟨t, List.mem_append_right _ (List.mem_singleton_self t), henters⟩

/-- The ids taken before a place of a history. -/
theorem mem_takenIds_of_split {pre post : List (TakenStep H)} {k : Nat} {i : UInt32}
    (heq : hist = pre ++ post) (hmem : (k, i) ∈ takenIds pre) : (k, i) ∈ takenIds hist := by
  rw [heq, takenIds, List.flatMap_append]
  exact List.mem_append_left _ hmem

theorem taken_of_uses (h : (connection H).History guard hist s) {t : TakenStep H} (ht : t ∈ hist)
    {k : Nat} {i : UInt32} (huses : usesPing k i t) : (k, i) ∈ takenIds hist := by
  obtain ⟨pre, post, heq⟩ := List.append_of_mem ht
  obtain ⟨hnow, -⟩ := h.upTo heq
  obtain ⟨p, hp, hid⟩ := huses
  have hsplit : hist = (pre ++ [t]) ++ post := by simp [heq]
  exact mem_takenIds_of_split hsplit ((allocated hnow).own k p i hp hid)

theorem taken_of_enters (h : (connection H).History guard hist s) {r : TakenStep H} (hr : r ∈ hist)
    {k : Nat} {i : UInt32} (henters : entersPing k i r) : (k, i) ∈ takenIds hist := by
  obtain ⟨pre, post, heq⟩ := List.append_of_mem hr
  obtain ⟨hpre, -, -⟩ := h.split heq
  exact mem_takenIds_of_split heq ((allocated hpre).own k _ i henters.2 rfl)

theorem PingCall.id_of_fired {p : PingCall} (h : p.isFired = true) : ∃ i, p.id = some i := by
  cases p with
  | send i rx | wait i rx => exact ⟨i, rfl⟩
  | _ => cases h

theorem before_of_fired {t : TakenStep H} (hs : t.before.step t.action = some (t.after, t.events))
    {k : Nat} {p' : PingCall} (hp' : t.after.pings[k]? = some p') (hfired : p'.isFired = true) :
    ∃ p, t.before.pings[k]? = some p := by
  cases pingCall_step hs hp' with
  | made fresh => cases hfired
  | still p get => exact ⟨_, get⟩
  | took action get => exact ⟨_, get⟩
  | enters i action get => exact ⟨_, get⟩
  | goesOn p p' get on => exact ⟨_, get⟩
  | dropped p get => exact ⟨_, get⟩
  | fired i pick p action pc known get => exact ⟨_, get⟩

/-- A call whose sender has been fired has had its echo. -/
theorem echoed_of_fired (h : (connection H).History guard hist s) {k : Nat} {p : PingCall}
    {i : UInt32} (hp : s.pings[k]? = some p) (hfired : p.isFired = true) (hid : p.id = some i) :
    Echoed k i hist := by
  refine h.invariant (I := fun hist s => ∀ k p i, s.pings[k]? = some p → p.isFired = true →
    p.id = some i → Echoed k i hist) ?_ ?_ k p i hp hfired hid
  · intro k p i hp
    cases hp
  · intro hist t hhist hguard hs ih k p' i hp' hfired hid
    have hnow := hhist.step hguard hs
    have hown : (k, i) ∈ takenIds (hist ++ [t]) := (allocated hnow).own k p' i hp' hid
    by_cases hwas : ∃ p, t.before.pings[k]? = some p ∧ p.isFired = true
    · obtain ⟨p, hp, hwas⟩ := hwas
      obtain ⟨i', hid'⟩ := PingCall.id_of_fired hwas
      have hown' : (k, i') ∈ takenIds (hist ++ [t]) :=
        mem_takenIds_of_split rfl ((allocated hhist).own k p i' hp hid')
      have hsame : i' = i := (allocated hnow).one hown' hown
      exact (ih k p i hp hwas (hsame ▸ hid')).concat t
    · have hfires : firesPing k t := by
        refine ⟨?_, p', hp', hfired⟩
        obtain ⟨p, hp⟩ := before_of_fired hs hp' hfired
        exact ⟨p, hp, Bool.eq_false_iff.mpr fun hp' => hwas ⟨p, hp, hp'⟩⟩
      obtain ⟨i', hresolves, hknown⟩ := known_of_fires hs hfires
      obtain ⟨r, hr, henters⟩ := entered_of_known hhist hknown
      have hown' : (k, i') ∈ takenIds (hist ++ [t]) :=
        mem_takenIds_of_split rfl (taken_of_enters hhist hr henters)
      have hsame : i' = i := (allocated hnow).one hown' hown
      obtain ⟨a, b, rfl⟩ := List.append_of_mem hr
      exact ⟨a, r, b, t, [], rfl, hsame ▸ henters, hsame ▸ hresolves, hfires⟩

/-- The id of an even PING that is read. -/
def Event.evenPing : Event H → List UInt32
  | .read (.ping f) => if f.id % 2 = 1 then [] else [f.id]
  | _ => []

/-- The id of the echo that a step processes. -/
def State.resolvedBy (s : State H) : Action H → List UInt32
  | .readTask _ => s.readTask.pendingPing
  | _ => []

theorem dispatch_pendingPing (f : Frame H) :
    (dispatch f).pendingPing = (Event.read f).evenPing := by
  cases f with
  | synStream g =>
      simp only [dispatch, Event.evenPing]
      split
      · rfl
      · rfl
  | ping g =>
      simp only [dispatch, Event.evenPing]
      split
      · rfl
      · rfl
  | _ => rfl

/-- An even PING that is read is processed next. -/
theorem pendingPing_step {s' : State H} {a : Action H} {es : List (Event H)}
    (hs : s.step a = some (s', es)) :
    s.readTask.pendingPing ++ es.flatMap Event.evenPing =
      s.resolvedBy a ++ s'.readTask.pendingPing := by
  have hquiet : ∀ e : Event H, e.isQuiet = true → e.evenPing = [] := fun e he => by
    cases e with
    | read f => cases he
    | _ => rfl
  have hworker : ∀ i, WorkerMove s i s' es → es.flatMap Event.evenPing = [] := fun i hmove => by
    cases hmove with
    | _ => rfl
  cases a with
  | read f =>
      simp only [State.step, State.readFrame] at hs
      split at hs
      · rename_i hpc
        cases hs
        rw [hpc, List.flatMap_cons, flatMap_rejectedAtOnce Event.evenPing (fun _ _ => rfl) f,
          List.append_nil]
        exact (dispatch_pendingPing f).symm
      · cases hs
  | readFail | readPanic =>
      simp only [State.step, State.readEnds] at hs
      split at hs
      · rename_i hpc
        cases hs
        rw [hpc]
        rfl
      · cases hs
  | readTask pick =>
      rw [(readStep_pings hs).2]
      cases readStep_move hs with
      | answer f c es pc channel events => rw [flatMap_quiet hquiet (answer_quiet events)]; rfl
      | _ => rfl
  | workerRecv i =>
      have hmove := workerRecv_move hs
      rw [hmove.readTask, hworker i hmove]
      exact List.append_nil _
  | workerRun i =>
      have hmove := workerRun_move hs
      rw [hmove.readTask, hworker i hmove]
      exact List.append_nil _
  | _ =>
      have haside := (aside_step rfl hs).aside
      rw [haside.readTask, flatMap_quiet hquiet haside.quiet]
      exact List.append_nil _

/-- The even PINGs that were read, and the ids that were processed. -/
def readPings (hist : List (TakenStep H)) : List UInt32 :=
  (hist.flatMap Machine.Taken.events).flatMap Event.evenPing

def resolvedPings (hist : List (TakenStep H)) : List UInt32 :=
  hist.flatMap fun t => t.before.resolvedBy t.action

/-- Every even PING that is read is processed once, in order. -/
theorem readPings_eq (h : (connection H).History guard hist s) :
    readPings hist = resolvedPings hist ++ s.readTask.pendingPing := by
  refine h.invariant (I := fun hist s => readPings hist =
    resolvedPings hist ++ s.readTask.pendingPing) rfl ?_
  intro hist t _ _ hs ih
  have hone := pendingPing_step hs
  calc readPings (hist ++ [t])
      = readPings hist ++ t.events.flatMap Event.evenPing := by
        rw [readPings, List.flatMap_append, List.flatMap_append, List.flatMap_singleton]
        rfl
    _ = resolvedPings hist ++ (t.before.resolvedBy t.action ++ t.after.readTask.pendingPing) := by
        rw [ih, List.append_assoc, hone]
    _ = resolvedPings (hist ++ [t]) ++ t.after.readTask.pendingPing := by
        rw [resolvedPings, resolvedPings, List.flatMap_append, List.flatMap_singleton,
          List.append_assoc]

theorem uses_of_enters {t : TakenStep H}
    (hs : t.before.step t.action = some (t.after, t.events)) {k : Nat} {i : UInt32}
    (h : entersPing k i t) : usesPing k i t := by
  obtain ⟨action, get⟩ := h
  rw [action] at hs
  simp only [State.step, State.stepPing, get] at hs
  obtain ⟨hafter, -⟩ := Prod.mk.inj (Option.some.inj hs)
  refine ⟨.send i .waiting, ?_, rfl⟩
  rw [← hafter]
  refine List.getElem?_set_self ?_
  rw [signalPing_length]
  exact (List.getElem?_eq_some_iff.mp get).1

/-- An echo takes its id out of the map. -/
theorem unknown_of_resolves {t : TakenStep H}
    (hs : t.before.step t.action = some (t.after, t.events)) {i : UInt32} (h : resolvesPing i t) :
    t.after.pingMap.lookup i = none := by
  obtain ⟨⟨pick, action⟩, pc⟩ := h
  rw [action] at hs
  simp only [State.step, State.readStep, pc] at hs
  obtain ⟨hafter, -⟩ := Prod.mk.inj (Option.some.inj hs)
  rw [← hafter]
  exact (signalPing_lookup _ _ _ i).trans (if_pos rfl)

theorem entered_of_fired {p : PingCall} (h : p.isFired = true) : p.isEntered = true := by
  cases p with
  | send _ _ | wait _ _ => rfl
  | _ => cases h

/-- Once a call has been completed its id is not in the map any more, and the call does
not enter it again. -/
theorem unknown_after (h : (connection H).History guard hist s) (hfew : s.pings.length < 2 ^ 31)
    {pre mid : List (TakenStep H)} {t : TakenStep H} (heq : hist = pre ++ t :: mid) {k : Nat}
    {i : UInt32} (hfires : firesPing k t) (hresolves : resolvesPing i t) :
    s.pingMap.lookup i = none ∧ (k, i) ∈ takenIds hist ∧
      ∃ p, s.pings[k]? = some p ∧ p.isEntered = true := by
  refine h.invariant (I := fun hist s => s.pings.length < 2 ^ 31 → ∀ pre mid,
    hist = pre ++ t :: mid → s.pingMap.lookup i = none ∧ (k, i) ∈ takenIds hist ∧
      ∃ p, s.pings[k]? = some p ∧ p.isEntered = true) ?_ ?_ hfew pre mid heq
  · intro _ pre mid heq
    simp at heq
  · intro hist t₁ hhist hguard hs ih hfew pre mid heq
    have hnow := hhist.step hguard hs
    rcases Machine.concat_eq_split heq with ⟨rfl, rfl⟩ | ⟨rest, hrest⟩
    · obtain ⟨i', hresolves', hknown⟩ := known_of_fires hs hfires
      cases hresolves.2.symm.trans hresolves'.2
      obtain ⟨r, hr, henters⟩ := entered_of_known hhist hknown
      obtain ⟨-, p, hp, hfired⟩ := hfires
      exact ⟨unknown_of_resolves hs hresolves,
        mem_takenIds_of_split rfl (taken_of_enters hhist hr henters), p, hp,
        entered_of_fired hfired⟩
    · obtain ⟨hnone, htaken, p, hp, hentered⟩ :=
        ih (Nat.lt_of_le_of_lt (pings_length hs) hfew) pre rest hrest
      have hown : (k, i) ∈ takenIds (hist ++ [t₁]) := mem_takenIds_of_split rfl htaken
      refine ⟨?_, hown, entered_stays hs hp hentered⟩
      cases hlookup : t₁.after.pingMap.lookup i with
      | none => rfl
      | some k' =>
          -- only a call with the same id could enter it, and this call has done so
          rcases pingMap_step hs hlookup with hbefore | henters
          · cases hnone.symm.trans hbefore
          · have hown' :=
        taken_of_enters hnow (List.mem_append_right _ (List.mem_singleton_self t₁))
              henters
            obtain rfl := (allocated hnow).distinct hfew hown hown'
            cases hp.symm.trans henters.2
            cases hentered

theorem pings_few (h : (connection H).History guard hist s) :
    ∀ t ∈ hist, t.before.pings.length ≤ s.pings.length := by
  refine h.invariant (I := fun hist s => ∀ t ∈ hist, t.before.pings.length ≤ s.pings.length)
    (List.forall_mem_nil _) ?_
  intro hist t₁ _ _ hs ih t ht
  rcases List.mem_append.mp ht with hmem | hmem
  · exact (ih t hmem).trans (pings_length hs)
  · cases List.mem_singleton.mp hmem
    exact pings_length hs

/-- The calls of `ping` are matched with the PINGs of the peer. -/
structure PingsMatched (hist : List (TakenStep H)) (s : State H) : Prop where
  /-- calls use even ids -/
  even : ∀ t ∈ hist, ∀ k i, usesPing k i t → i % 2 = 0
  /-- each its own -/
  own : ∀ t ∈ hist, ∀ t' ∈ hist, ∀ k k' i i', usesPing k i t → usesPing k' i' t' →
    (k = k' ↔ i = i')
  /-- even PINGs that are read are processed, each once -/
  log : readPings hist = resolvedPings hist ++ s.readTask.pendingPing
  /-- `Ok` is returned behind the echo -/
  echoed : ∀ pre t post k, hist = pre ++ t :: post → returnsOk k t →
    ∃ i, (∃ u ∈ pre, usesPing k i u) ∧ Echoed k i pre
  /-- what completes a call is a PING with an even id that stands in the map -/
  known : ∀ t ∈ hist, ∀ k, firesPing k t →
    ∃ i, resolvesPing i t ∧ i % 2 = 0 ∧ t.before.pingMap.lookup i = some k
  /-- it completes no other -/
  single : ∀ t ∈ hist, ∀ k k', firesPing k t → firesPing k' t → k = k'
  /-- and a repeated echo completes none -/
  repeated : ∀ pre t mid t' post i k k', hist = (pre ++ t :: mid) ++ t' :: post →
    resolvesPing i t → firesPing k t → resolvesPing i t' → ¬ firesPing k' t'

/-- **Echoes.**  Fewer than `2^31` calls of `ping` on a connection use distinct even
ids, and a call returns `Ok` only behind an echo of its own id that no other call has
returned for. -/
theorem pingsMatched (h : (connection H).History guard hist s)
    (hfew : s.pings.length < 2 ^ 31) : PingsMatched hist s where
  even t ht k i huses := (allocated h).even (taken_of_uses h ht huses)
  own t ht t' ht' k k' i i' huses huses' := by
    have htaken := taken_of_uses h ht huses
    have htaken' := taken_of_uses h ht' huses'
    constructor
    · rintro rfl
      exact (allocated h).one htaken htaken'
    · rintro rfl
      exact (allocated h).distinct hfew htaken htaken'
  log := readPings_eq h
  echoed pre t post k heq hok := by
    obtain ⟨hpre, -, hs⟩ := h.split heq
    obtain ⟨i, hwait⟩ := fired_of_returns hs hok
    have hechoed := echoed_of_fired hpre hwait rfl rfl
    obtain ⟨a, r, b, e, c, hpre', henters, -⟩ := id hechoed
    have hsplit : pre = a ++ r :: (b ++ e :: c) := by simp [hpre']
    obtain ⟨-, -, hs'⟩ := hpre.split hsplit
    exact ⟨i, ⟨r, by simp [hpre'], uses_of_enters hs' henters⟩, hechoed⟩
  known t ht k hfires := by
    obtain ⟨pre, post, heq⟩ := List.append_of_mem ht
    obtain ⟨hpre, -, hs⟩ := h.split heq
    obtain ⟨i, hresolves, hknown⟩ := known_of_fires hs hfires
    obtain ⟨r, hr, henters⟩ := entered_of_known hpre hknown
    exact ⟨i, hresolves, (allocated hpre).even (taken_of_enters hpre hr henters), hknown⟩
  single t ht k k' hfires hfires' := by
    obtain ⟨pre, post, heq⟩ := List.append_of_mem ht
    obtain ⟨-, -, hs⟩ := h.split heq
    obtain ⟨i, hresolves, hknown⟩ := known_of_fires hs hfires
    obtain ⟨i', hresolves', hknown'⟩ := known_of_fires hs hfires'
    cases hresolves.2.symm.trans hresolves'.2
    exact Option.some.inj (hknown.symm.trans hknown')
  repeated pre t mid t' post i k k' heq hresolves hfires hresolves' hfires' := by
    obtain ⟨hpre, -, hs⟩ := h.split heq
    obtain ⟨i', hresolves'', hknown⟩ := known_of_fires hs hfires'
    cases hresolves'.2.symm.trans hresolves''.2
    have hfew' := pings_few h t' (by simp [heq])
    obtain ⟨hnone, -, -⟩ := unknown_after hpre (Nat.lt_of_le_of_lt hfew' hfew) rfl hfires hresolves
    cases hnone.symm.trans hknown

/-- Two calls, an odd PING, and the echoes in reverse order, the first of them twice. -/
theorem pingsMatched_reordered : ∃ hist s, (connection Unit).History Machine.free hist s ∧
    s.pings = [.returned .ok, .returned .ok] ∧ readPings hist = [4, 4, 2] ∧
    PingsMatched hist s := by
  let echo (id : UInt32) : List (Action Unit) := [.read (.ping { id := id }), .readTask 0]
  obtain ⟨hist, s, h, hcheck⟩ := Machine.exists_history_of_trace (connection Unit) Machine.free
    ([Action.ping, .pingStep 0, .ping, .pingStep 1, .pingStep 1, .pingStep 0, .pingStep 1,
        .pingStep 0] ++
      echo 7 ++ echo 4 ++ echo 4 ++ echo 2 ++ [Action.pingStep 0, .pingStep 1])
    (fun hist s => decide (s.pings = [.returned .ok, .returned .ok] ∧ readPings hist = [4, 4, 2]))
    (by decide +kernel)
  obtain ⟨hpings, hread⟩ := of_decide_eq_true hcheck
  exact ⟨hist, s, h, hpings, hread, pingsMatched h (by rw [hpings]; decide)⟩

end SpdyStream.Session
