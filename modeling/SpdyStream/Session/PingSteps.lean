/-
  Session/PingSteps.lean --- what a step does to the calls of `ping`.

  A call takes an id from the counter, enters its sender into `ping_map` and sends
  the PING.  The read task removes the entry under the id of an even PING, and
  fires its sender.  `pings_step` lists these steps, `pingCall_step` tells one of them
  from where a call is, and `pingMap_step` from what stands in the map.
-/
import SpdyStream.Session.OneStream

set_option autoImplicit false

namespace SpdyStream.Session

open SpdyStream.Foundation
open SpdyStream.Framing

variable {H : Type}

/-- The id of a call that has one and has not returned. -/
def PingCall.id : PingCall → Option UInt32
  | .insert id | .send id _ | .wait id _ => some id
  | .fetchId | .returned _ => none

/-- The sender of the call has been fired. -/
def PingCall.isFired : PingCall → Bool
  | .send _ .fired | .wait _ .fired => true
  | _ => false

/-- The id under which the call awaits an echo, while its sender is not used up. -/
def PingCall.waitsFor : PingCall → Option UInt32
  | .send id .waiting | .wait id .waiting => some id
  | _ => none

/-- The call has entered its sender into the map. -/
def PingCall.isEntered : PingCall → Bool
  | .fetchId | .insert _ => false
  | .send _ _ | .wait _ _ | .returned _ => true

/-- A call that goes on keeps its id or has returned, and fires nothing. -/
structure PingCall.GoesOn (p p' : PingCall) : Prop where
  entered : p.isEntered = true ∧ p'.isEntered = true
  id : p'.id = p.id ∨ p'.id = none
  fired : p'.isFired = true → p.isFired = true
  ok : p' = .returned .ok → ∃ i, p = .wait i .fired

/-- A call that fails returns, and fires nothing. -/
theorem PingCall.goesOn_failed {p : PingCall} (hentered : p.isEntered = true) (e : Error) :
    p.GoesOn (.returned (.failed e)) := by
  refine ⟨⟨hentered, rfl⟩, .inr rfl, fun hfired => ?_, fun hok => ?_⟩
  · cases hfired
  · cases hok

/-- The call that the action ends while it awaits an echo: its send finds the channel
closed, or it has waited five seconds. -/
def State.givesUpPing (s : State H) : Action H → Option Nat
  | .pingStep k =>
      match s.pings[k]? with
      | some (.send _ .waiting) => if s.writeChannel.isOpen then none else some k
      | _ => none
  | .pingTimeout k =>
      match s.pings[k]? with
      | some (.wait _ .waiting) => some k
      | _ => none
  | _ => none

/-- The id of the echo that the read task holds. -/
def ReadTask.pendingPing : ReadTask H → List UInt32
  | .resolvePing id => [id]
  | _ => []

/-- What a step does to the calls of `ping` and their map. -/
inductive PingMove (s : State H) (a : Action H) (s' : State H) : Prop
  | same (pings : s'.pings = s.pings) (map : s'.pingMap = s.pingMap)
      (next : s'.nextPingId = s.nextPingId)
  | call (pings : s'.pings = s.pings ++ [.fetchId]) (map : s'.pingMap = s.pingMap)
      (next : s'.nextPingId = s.nextPingId)
  | fetch (k : Nat) (action : a = .pingStep k) (get : s.pings[k]? = some .fetchId)
      (pings : s'.pings = s.pings.set k (.insert s.nextPingId)) (map : s'.pingMap = s.pingMap)
      (next : s'.nextPingId = s.nextPingId + 2)
  | insert (k : Nat) (i : UInt32) (action : a = .pingStep k)
      (get : s.pings[k]? = some (.insert i))
      (pings : s'.pings = (s.signalPing i .dropped).pings.set k (.send i .waiting))
      (map : s'.pingMap = (s.signalPing i .dropped).pingMap.insert i k)
      (next : s'.nextPingId = s.nextPingId)
  | goesOn (k : Nat) (p p' : PingCall) (get : s.pings[k]? = some p)
      (pings : s'.pings = s.pings.set k p') (on : p.GoesOn p')
      (waits : p'.waitsFor = p.waitsFor ∨
        (∃ r, p' = .returned r) ∧ s.givesUpPing a = some k)
      (map : s'.pingMap = s.pingMap) (next : s'.nextPingId = s.nextPingId)
  | resolve (i : UInt32) (pick : Nat) (action : a = .readTask pick)
      (pc : s.readTask = .resolvePing i) (pings : s'.pings = (s.signalPing i .fired).pings)
      (map : s'.pingMap = (s.signalPing i .fired).pingMap)
      (next : s'.nextPingId = s.nextPingId)

theorem signalPing_nextPingId (s : State H) (i : UInt32) (rx : Oneshot) :
    (s.signalPing i rx).nextPingId = s.nextPingId := by
  unfold State.signalPing
  split
  · rfl
  · rfl

theorem sendIgnoring_pings {s s' : State H} {src : Source} {f : Frame H} {es : List (Event H)}
    (h : s.sendIgnoring src f = some (s', es)) :
    s'.pings = s.pings ∧ s'.pingMap = s.pingMap ∧ s'.nextPingId = s.nextPingId := by
  unfold State.sendIgnoring at h
  split at h
  · cases h
  · cases h
    exact ⟨rfl, rfl, rfl⟩
  · cases h
    exact ⟨rfl, rfl, rfl⟩

theorem readStep_pings {s s' : State H} {pick : Nat} {es : List (Event H)}
    (h : s.readStep pick = some (s', es)) :
    PingMove s (.readTask pick) s' ∧ s'.readTask.pendingPing = [] := by
  cases task_step h with
  | resolves i pc =>
      exact ⟨.resolve i pick rfl pc rfl rfl (signalPing_nextPingId s i .fired), rfl⟩
  | inUse _ _ send | responds _ _ send =>
      obtain ⟨⟨s₁, es₁⟩, hsend, hr⟩ := Option.map_eq_some_iff.mp send
      cases hr
      obtain ⟨hpings, hmap, hnext⟩ := sendIgnoring_pings hsend
      exact ⟨.same hpings hmap hnext, rfl⟩
  | routes holds move =>
      cases move with
      | plain _ before _ _ _ => cases holds.symm.trans before
      | answer _ _ _ pc _ _ => cases holds.symm.trans (ReadTask.holdsFrame_of_answer pc)
      | missed f _ _ =>
          refine ⟨.same rfl rfl rfl, ?_⟩
          cases f with
          | _ => rfl
      | _ => exact ⟨.same rfl rfl rfl, rfl⟩
  | _ => exact ⟨.same rfl rfl rfl, rfl⟩

theorem stepPing_pings {s s' : State H} {k : Nat} {es : List (Event H)}
    (h : s.stepPing k = some (s', es)) : PingMove s (.pingStep k) s' := by
  unfold State.stepPing at h
  cases hget : s.pings[k]? with
  | none =>
      rw [hget] at h
      cases h
  | some p =>
      rw [hget] at h
      cases p with
      | fetchId =>
          cases h
          exact .fetch k rfl hget rfl rfl rfl
      | insert i =>
          cases h
          exact .insert k i rfl hget rfl rfl (signalPing_nextPingId s i .dropped)
      | send i rx =>
          simp only [] at h
          split at h
          · cases h
          · rename_i hclosed
            cases h
            refine .goesOn k _ _ hget rfl (PingCall.goesOn_failed rfl _) ?_ rfl rfl
            cases rx with
            | waiting =>
                refine .inr ⟨⟨_, rfl⟩, ?_⟩
                simp [State.givesUpPing, hget, closed_of_send hclosed]
            | fired | dropped => exact .inl rfl
          · cases h
            refine .goesOn k _ _ hget rfl ⟨⟨rfl, rfl⟩, .inl rfl, fun hfired => ?_, fun hok => ?_⟩
              (.inl ?_) rfl rfl
            · cases rx with
              | _ => exact hfired
            · cases hok
            · cases rx with
              | _ => rfl
      | wait i rx =>
          cases rx with
          | waiting => cases h
          | fired =>
              cases h
              refine .goesOn k _ _ hget rfl ⟨⟨rfl, rfl⟩, .inr rfl, fun hfired => ?_,
                fun _ => ⟨i, rfl⟩⟩ (.inl rfl) rfl rfl
              cases hfired
          | dropped =>
              cases h
              exact .goesOn k _ _ hget rfl (PingCall.goesOn_failed rfl _) (.inl rfl) rfl rfl
      | returned r => cases h

/-- What a step does to the pings. -/
theorem pings_step {s s' : State H} {a : Action H} {es : List (Event H)}
    (hs : s.step a = some (s', es)) : PingMove s a s' := by
  cases a with
  | read f =>
      simp only [State.step, State.readFrame] at hs
      split at hs
      · cases hs
        exact .same rfl rfl rfl
      · cases hs
  | readFail | readPanic =>
      simp only [State.step, State.readEnds] at hs
      split at hs
      · cases hs
        exact .same rfl rfl rfl
      · cases hs
  | readTask pick => exact (readStep_pings hs).1
  | workerRecv i =>
      cases workerRecv_move hs with
      | _ => exact .same rfl rfl rfl
  | workerRun i =>
      cases workerRun_move hs with
      | _ => exact .same rfl rfl rfl
  | write =>
      simp only [State.step, State.write] at hs
      split at hs
      · cases hs
      · split at hs
        · cases hs
          exact .same rfl rfl rfl
        · cases hs
  | invoke o r =>
      simp only [State.step, State.invoke] at hs
      split at hs
      · cases hs
        exact .same rfl rfl rfl
      · cases hs
  | call k alt =>
      simp only [State.step, State.stepCall] at hs
      repeat' split at hs
      all_goals cases hs
      exact .same rfl rfl rfl
  | cancel k =>
      simp only [State.step, State.cancelCall] at hs
      repeat' split at hs
      all_goals cases hs
      exact .same rfl rfl rfl
  | closeStep k =>
      simp only [State.step, State.stepClose] at hs
      split at hs
      · cases hs
      · cases hs
        exact .same rfl rfl rfl
      · cases hs
        exact .same rfl rfl rfl
      · obtain ⟨⟨s₁, es₁⟩, hsend, hr⟩ := Option.map_eq_some_iff.mp hs
        cases hr
        obtain ⟨hpings, hmap, hnext⟩ := sendIgnoring_pings hsend
        exact .same hpings hmap hnext
      · cases hs
        exact .same rfl rfl rfl
      · split at hs
        · cases hs
          exact .same rfl rfl rfl
        · cases hs
      · cases hs
  | closeTimeout k =>
      simp only [State.step, State.timeoutClose] at hs
      split at hs
      · cases hs
        exact .same rfl rfl rfl
      · cases hs
  | writeFail | close =>
      cases hs
      exact .same rfl rfl rfl
  | ping =>
      cases hs
      exact .call rfl rfl rfl
  | pingStep k => exact stepPing_pings hs
  | pingTimeout k =>
      simp only [State.step, State.timeoutPing] at hs
      split at hs
      · rename_i i hget
        cases hs
        refine .goesOn k _ _ hget rfl (PingCall.goesOn_failed rfl _) (.inr ⟨⟨_, rfl⟩, ?_⟩)
          rfl rfl
        simp [State.givesUpPing, hget]
      · cases hs

theorem signalPing_get (s : State H) (i : UInt32) (rx : Oneshot) (j : Nat) :
    (s.signalPing i rx).pings[j]? =
      if s.pingMap.lookup i = some j then (s.pings[j]?).map (PingCall.signal rx)
      else s.pings[j]? := by
  unfold State.signalPing
  cases hlookup : s.pingMap.lookup i with
  | none => simp
  | some k =>
      rw [List.getElem?_modify]
      by_cases hk : k = j
      · subst hk
        simp
      · simp [hk]

theorem signalPing_lookup (s : State H) (i : UInt32) (rx : Oneshot) (j : UInt32) :
    (s.signalPing i rx).pingMap.lookup j = if j = i then none else s.pingMap.lookup j := by
  unfold State.signalPing
  cases hlookup : s.pingMap.lookup i with
  | none =>
      by_cases hj : j = i
      · rw [if_pos hj, hj]
        exact hlookup
      · rw [if_neg hj]
  | some k =>
      by_cases hj : j = i
      · rw [if_pos hj, hj]
        exact AList.lookup_erase _ _
      · rw [if_neg hj]
        exact AList.lookup_erase_ne hj

/-- How call `k` of `ping` comes where it is after a step. -/
inductive PingCallMove (s : State H) (a : Action H) (k : Nat) : PingCall → Prop
  | made (fresh : s.pings[k]? = none) : PingCallMove s a k .fetchId
  | still (p : PingCall) (get : s.pings[k]? = some p) : PingCallMove s a k p
  | took (action : a = .pingStep k) (get : s.pings[k]? = some .fetchId) :
      PingCallMove s a k (.insert s.nextPingId)
  | enters (i : UInt32) (action : a = .pingStep k) (get : s.pings[k]? = some (.insert i)) :
      PingCallMove s a k (.send i .waiting)
  | goesOn (p p' : PingCall) (get : s.pings[k]? = some p) (on : p.GoesOn p') :
      PingCallMove s a k p'
  | dropped (p : PingCall) (get : s.pings[k]? = some p) : PingCallMove s a k (p.signal .dropped)
  | fired (i : UInt32) (pick : Nat) (p : PingCall) (action : a = .readTask pick)
      (pc : s.readTask = .resolvePing i) (known : s.pingMap.lookup i = some k)
      (get : s.pings[k]? = some p) : PingCallMove s a k (p.signal .fired)

theorem getElem?_of_set {α : Type} {l : List α} {i j : Nat} {x y : α}
    (h : (l.set i x)[j]? = some y) : (i = j ∧ y = x) ∨ l[j]? = some y := by
  rw [List.getElem?_set] at h
  split at h
  · split at h
    · exact .inl ⟨‹i = j›, (Option.some.inj h).symm⟩
    · cases h
  · exact .inr h

theorem signalPing_call {s : State H} {i : UInt32} {rx : Oneshot} {k : Nat} {p' : PingCall}
    (h : (s.signalPing i rx).pings[k]? = some p') :
    s.pings[k]? = some p' ∨
      ∃ p, s.pings[k]? = some p ∧ s.pingMap.lookup i = some k ∧ p' = p.signal rx := by
  rw [signalPing_get] at h
  split at h
  · obtain ⟨p, hp, rfl⟩ := Option.map_eq_some_iff.mp h
    exact .inr ⟨p, hp, ‹_›, rfl⟩
  · exact .inl h

theorem pingCall_step {s s' : State H} {a : Action H} {es : List (Event H)}
    (hs : s.step a = some (s', es)) {k : Nat} {p' : PingCall} (h : s'.pings[k]? = some p') :
    PingCallMove s a k p' := by
  cases pings_step hs with
  | same pings map next =>
      rw [pings] at h
      exact .still p' h
  | call pings map next =>
      rw [pings] at h
      rcases Nat.lt_or_ge k s.pings.length with hlt | hge
      · rw [List.getElem?_append_left hlt] at h
        exact .still p' h
      · rw [List.getElem?_append_right hge, List.getElem?_singleton] at h
        split at h
        · cases h
          exact .made (List.getElem?_eq_none hge)
        · cases h
  | fetch j action get pings map next =>
      rw [pings] at h
      rcases getElem?_of_set h with ⟨rfl, rfl⟩ | hbefore
      · exact .took action get
      · exact .still p' hbefore
  | insert j i action get pings map next =>
      rw [pings] at h
      rcases getElem?_of_set h with ⟨rfl, rfl⟩ | hsignal
      · exact .enters i action get
      · rcases signalPing_call hsignal with hbefore | ⟨p, hp, -, rfl⟩
        · exact .still p' hbefore
        · exact .dropped p hp
  | goesOn j p q get pings on waits map next =>
      rw [pings] at h
      rcases getElem?_of_set h with ⟨rfl, rfl⟩ | hbefore
      · exact .goesOn p _ get on
      · exact .still p' hbefore
  | resolve i pick action pc pings map next =>
      rw [pings] at h
      rcases signalPing_call h with hbefore | ⟨p, hp, hknown, rfl⟩
      · exact .still p' hbefore
      · exact .fired i pick p action pc hknown hp

/-- What stands in the map after a step stood there before, or has just been entered. -/
theorem pingMap_step {s s' : State H} {a : Action H} {es : List (Event H)}
    (hs : s.step a = some (s', es)) {i : UInt32} {k : Nat} (h : s'.pingMap.lookup i = some k) :
    s.pingMap.lookup i = some k ∨ a = .pingStep k ∧ s.pings[k]? = some (.insert i) := by
  cases pings_step hs with
  | same pings map next | call pings map next | goesOn _ _ _ _ _ _ _ map _ => exact .inl (map ▸ h)
  | fetch j action get pings map next => exact .inl (map ▸ h)
  | insert j i' action get pings map next =>
      rw [map] at h
      by_cases hi : i = i'
      · subst hi
        rw [AList.lookup_insert] at h
        cases h
        exact .inr ⟨action, get⟩
      · rw [AList.lookup_insert_ne hi, signalPing_lookup, if_neg hi] at h
        exact .inl h
  | resolve i' pick action pc pings map next =>
      rw [map, signalPing_lookup] at h
      split at h
      · cases h
      · exact .inl h

theorem signalPing_length (s : State H) (i : UInt32) (rx : Oneshot) :
    (s.signalPing i rx).pings.length = s.pings.length := by
  unfold State.signalPing
  split
  · rfl
  · exact List.length_modify _ _ _

/-- A call is not taken away. -/
theorem pings_length {s s' : State H} {a : Action H} {es : List (Event H)}
    (hs : s.step a = some (s', es)) : s.pings.length ≤ s'.pings.length := by
  cases pings_step hs with
  | same pings map next => rw [pings]
  | call pings map next =>
      rw [pings, List.length_append]
      exact Nat.le_add_right _ _
  | fetch k action get pings map next => rw [pings, List.length_set]
  | insert k i action get pings map next => rw [pings, List.length_set, signalPing_length]
  | goesOn k p p' get pings on waits map next => rw [pings, List.length_set]
  | resolve i pick action pc pings map next => rw [pings, signalPing_length]

end SpdyStream.Session
