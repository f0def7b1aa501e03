/-
  Session/CloseOnce.lean --- calls of `close` that race.

  `gone_away.swap(true)` lets one call of `close` through; the others return.  So there is
  one GOAWAY at most, whoever else calls `close`, and whether or not the peer's own GOAWAY
  comes in between.  What that GOAWAY announces may be too low, as `GoAway.lean` shows, but
  by no more than the one SYN_STREAM that the read task had let in before the swap.
-/
import SpdyStream.Session.GoAway
import SpdyStream.Session.ShutDown

set_option autoImplicit false

namespace SpdyStream.Session

open SpdyStream.Foundation
open SpdyStream.Framing

variable {H : Type}

/-! ## What a step does to the calls of `close` -/

/-- The frame is a GOAWAY. -/
def goAwayOf : Frame H → List GoAwayFrame
  | .goAway g => [g]
  | _ => []

/-- The GOAWAYs that the write channel has accepted. -/
def Event.goAway : Event H → List GoAwayFrame
  | .enqueued _ f => goAwayOf f
  | _ => []

/-- The call of `close` has got past the swap, and has not returned. -/
def CloseCall.isClosing : CloseCall → Bool
  | .loadLast | .sendGoAway _ | .broadcast | .drain => true
  | .swap | .returned => false

/-- What a step does to the calls of `close`. -/
inductive ClosesMove (s s' : State H) (es : List (Event H)) : Prop where
  | same (closes : s'.closes = s.closes) (gone : s.goneAway = true → s'.goneAway = true)
      (silent : es.flatMap Event.goAway = [])
  | opens (closes : s'.closes = s.closes ++ [.swap]) (gone : s'.goneAway = s.goneAway)
      (silent : es.flatMap Event.goAway = [])
  | own (k : Nat) (step : CloseStep s k s' es)
  | givesUp (k : Nat) (get : s.closes[k]? = some .drain)
      (closes : s'.closes = s.closes.set k .returned) (gone : s'.goneAway = s.goneAway)
      (silent : es.flatMap Event.goAway = [])

theorem closesMove_mute {s s' : State H} (hcloses : s'.closes = s.closes)
    (hgone : s'.goneAway = s.goneAway) : ClosesMove s s' [] :=
  .same hcloses (fun h => hgone.trans h) rfl

/-- A call on a stream sends no GOAWAY. -/
theorem goAway_call {alt : Bool} {pc : CallPc H} {st : Stream H} {c : Channel H}
    {out : CallOutcome H} (h : callStep alt pc st c = some out) (k o : Nat) :
    (out.effects.map (callEvent k o)).flatMap Event.goAway = [] := by
  rw [List.flatMap_map]
  refine List.flatMap_eq_nil_iff.mpr fun eff heff => ?_
  cases eff with
  | delivered d => rfl
  | enqueued f =>
      have hsends := ((callStep_keeps h).sent f heff).1
      cases pc with
      | replySend _ _ | writeSend _ _ | pollSend _ | shutdownSend | resetSend _ =>
          cases hsends
          rfl
      | _ => cases hsends

variable {guard : List (Event H) → State H → Action H → Prop} {evs : List (Event H)} {s : State H}

/-- Nor is the peer owed one. -/
theorem goAway_answer (h : (connection H).Run guard evs s) (hopen : s.writeChannel.isOpen = true)
    {f : Frame H} (hf : s.readTask.answer = some f) : goAwayOf f = [] := by
  have hmem : f ∈ evs.flatMap Event.owed := by
    rw [answers_once h hopen, hf]
    exact List.mem_append_right _ (List.mem_singleton_self f)
  obtain ⟨e, -, hfe⟩ := List.mem_flatMap.mp hmem
  cases e with
  | rejected g status =>
      cases List.mem_singleton.mp hfe
      rfl
  | lookedUp g found =>
      cases g with
      | data df =>
          cases found with
          | none =>
              cases List.mem_singleton.mp hfe
              rfl
          | some o => cases hfe
      | _ => cases hfe
  | read g =>
      cases g with
      | ping p =>
          simp only [Event.owed] at hfe
          split at hfe
          · cases List.mem_singleton.mp hfe
            rfl
          · cases hfe
      | _ => cases hfe
  | _ => cases hfe

/-- The read task sends an answer, or finds the channel closed. -/
theorem closesMove_answer (h : (connection H).Run guard evs s) {s' : State H} {f : Frame H}
    {es : List (Event H)} (hf : s.readTask.answer = some f)
    (hsend : (s.sendIgnoring .readTask f).map (thenRead .reading) = some (s', es)) :
    ClosesMove s s' es := by
  obtain ⟨⟨s₁, es₁⟩, hfirst, hr⟩ := Option.map_eq_some_iff.mp hsend
  cases hr
  rcases sendIgnoring_cases hfirst with ⟨-, rfl, rfl⟩ | ⟨c, hsent, rfl, rfl⟩
  · exact closesMove_mute rfl rfl
  · refine .same rfl id ?_
    rw [List.flatMap_singleton]
    exact goAway_answer h (open_of_send hsent) hf

theorem closes_move (h : (connection H).Run guard evs s) {s' : State H} {a : Action H}
    {es : List (Event H)} (hs : s.step a = some (s', es)) : ClosesMove s s' es := by
  cases a with
  | read f =>
      simp only [State.step, State.readFrame] at hs
      split at hs
      · cases hs
        exact .same rfl id (flatMap_rejectedAtOnce Event.goAway (fun _ _ => rfl) f)
      · cases hs
  | readFail | readPanic =>
      simp only [State.step, State.readEnds] at hs
      split at hs
      · cases hs
        exact closesMove_mute rfl rfl
      · cases hs
  | readTask pick =>
      cases task_step hs with
      | routes holds move =>
          cases move with
          | plain _ before _ _ _ => cases holds.symm.trans before
          | answer _ _ _ pc _ _ => cases holds.symm.trans (ReadTask.holdsFrame_of_answer pc)
          | _ => exact .same rfl id rfl
      | inUse _ pc send | responds _ pc send =>
          exact closesMove_answer h (by rw [pc]; rfl) send
      | resolves id' pc =>
          obtain ⟨pingMap, pings, heq⟩ := signalPing_eq s id' .fired
          rw [heq]
          exact closesMove_mute rfl rfl
      | goesAway pc => exact .same rfl (fun _ => rfl) rfl
      | _ => exact closesMove_mute rfl rfl
  | workerRecv i =>
      cases workerRecv_move hs with
      | _ => exact .same rfl id rfl
  | workerRun i =>
      cases workerRun_move hs with
      | _ => exact .same rfl id rfl
  | write =>
      obtain ⟨f, rest, -, -, rfl, rfl⟩ := write_step hs
      exact closesMove_mute rfl rfl
  | writeFail | ping =>
      cases hs
      exact closesMove_mute rfl rfl
  | invoke o r =>
      simp only [State.step, State.invoke] at hs
      split at hs
      · cases hs
        exact .same rfl id rfl
      · cases hs
  | call k alt =>
      obtain ⟨c, st, out, -, -, outcome, rfl, rfl⟩ := stepCall_eq hs
      exact .same rfl id (goAway_call outcome k c.stream)
  | cancel k =>
      simp only [State.step, State.cancelCall] at hs
      split at hs
      · cases hs
      · split at hs
        · cases hs
        · split at hs
          · cases hs
          · cases hs
            exact closesMove_mute rfl rfl
  | close =>
      cases hs
      exact .opens rfl rfl rfl
  | closeStep k => exact .own k (closeStep_eq hs)
  | closeTimeout k =>
      simp only [State.step, State.timeoutClose] at hs
      split at hs
      · rename_i hget
        cases hs
        exact .givesUp k hget rfl rfl rfl
      · cases hs
  | pingStep k =>
      cases pingStep_eq hs with
      | inserts id' get =>
          obtain ⟨pingMap, pings, heq⟩ := signalPing_eq s id' .dropped
          rw [heq]
          exact closesMove_mute rfl rfl
      | _ => exact .same rfl id rfl
  | pingTimeout k =>
      simp only [State.step, State.timeoutPing] at hs
      split at hs
      · cases hs
        exact closesMove_mute rfl rfl
      · cases hs

/-! ## One call gets through -/

/-- Setting one place of a list changes a count by what was there and what is there. -/
theorem countP_set_of_get {α : Type} {l : List α} {k : Nat} {x : α} (p : α → Bool)
    (h : l[k]? = some x) (y : α) :
    (l.set k y).countP p + (p x).toNat = l.countP p + (p y).toNat := by
  obtain ⟨hk, hx⟩ := List.getElem?_eq_some_iff.mp h
  have hpos : p x = true → 0 < l.countP p := fun hp =>
    List.countP_pos_iff.mpr ⟨x, List.mem_of_getElem? h, hp⟩
  rw [List.countP_set hk, hx]
  cases hpx : p x with
  | false => cases p y <;> simp
  | true =>
      have hcount := hpos hpx
      cases p y <;> simp <;> omega

/-- The flag has let this many calls through. -/
structure Elected (evs : List (Event H)) (s : State H) : Prop where
  closing : s.closes.countP CloseCall.isClosing ≤ s.goneAway.toNat
  sent : (evs.flatMap Event.goAway).length + s.closes.countP CloseCall.announces ≤
    s.goneAway.toNat

/-- A call of `close` goes on: what it gains in either count, the flag gains too. -/
theorem Elected.set {es : List (Event H)} {s' : State H} {k : Nat} {c c' : CloseCall}
    (h : Elected evs s) (get : s.closes[k]? = some c) (closes : s'.closes = s.closes.set k c')
    (hclosing : c'.isClosing.toNat + s.goneAway.toNat ≤ c.isClosing.toNat + s'.goneAway.toNat)
    (hsent : (es.flatMap Event.goAway).length + c'.announces.toNat + s.goneAway.toNat ≤
      c.announces.toNat + s'.goneAway.toNat) : Elected (evs ++ es) s' := by
  have hone := countP_set_of_get CloseCall.isClosing get c'
  have htwo := countP_set_of_get CloseCall.announces get c'
  have hbefore := h.closing
  have hbefore' := h.sent
  constructor
  · rw [closes]
    omega
  · rw [closes, List.flatMap_append, List.length_append]
    omega

theorem elected_run (h : (connection H).Run guard evs s) : Elected evs s := by
  refine h.invariant (I := Elected) ⟨Nat.le_refl _, Nat.le_refl _⟩ ?_
  intro evs es s s' a hrun _ hs ih
  cases closes_move hrun hs with
  | same closes gone silent =>
      have hmono : s.goneAway.toNat ≤ s'.goneAway.toNat := by
        cases hgone : s.goneAway with
        | false => exact Nat.zero_le _
        | true => rw [gone hgone]
      constructor
      · rw [closes]
        exact ih.closing.trans hmono
      · rw [List.flatMap_append, silent, List.append_nil, closes]
        exact ih.sent.trans hmono
  | opens closes gone silent =>
      constructor
      · rw [closes, gone, List.countP_append]
        exact ih.closing
      · rw [List.flatMap_append, silent, List.append_nil, closes, gone, List.countP_append]
        exact ih.sent
  | givesUp k get closes gone silent =>
      refine ih.set get closes ?_ ?_
      · rw [gone]
        exact Nat.add_le_add_right (Nat.zero_le _) _
      · rw [gone, silent]
        exact Nat.le_refl _
  | own k step =>
      cases step with
      | late get gone =>
          refine ih.set get rfl ?_ ?_
          · rw [gone]
            exact Nat.le_refl _
          · rw [gone]
            exact Nat.le_refl _
      | first get here =>
          refine ih.set get rfl ?_ ?_
          · rw [here]
            exact Nat.le_refl _
          · rw [here]
            exact Nat.le_refl _
      | loads get | sends lastGood c get send | broadcasts get =>
          exact ih.set get rfl (Nat.le_refl _) (Nat.le_refl _)
      | unsent lastGood get closed =>
          exact ih.set get rfl (Nat.le_refl _) (Nat.add_le_add_right (Nat.zero_le _) _)
      | drained get unlocked empty =>
          exact ih.set get rfl (Nat.add_le_add_right (Nat.zero_le _) _) (Nat.le_refl _)

/-! ## What GOAWAY announces -/

/-- The read task has found `gone_away` unset and not registered its SYN_STREAM yet. -/
def ReadTask.admits : ReadTask H → Bool
  | .register _ => true
  | _ => false

/-- The streams above an id. -/
def above (lastGood : UInt32) (ids : List UInt32) : List UInt32 :=
  ids.filter (lastGood < ·)

/-- What is known of a last good id that has been loaded. -/
structure Loaded (s : State H) (lastGood : UInt32) : Prop where
  known : lastGood = 0 ∨ lastGood ∈ s.ids
  late : (above lastGood s.ids).length + s.readTask.admits.toNat ≤ 1

/-- The counter is 0 or the id of a stream. -/
theorem last_known (h : (connection H).Run guard evs s) :
    s.lastClientStreamId = 0 ∨ s.lastClientStreamId ∈ s.ids := by
  refine h.invariant (I := fun _ s => s.lastClientStreamId = 0 ∨ s.lastClientStreamId ∈ s.ids)
    (.inl rfl) ?_
  intro evs es s s' a hrun _ hs ih
  rcases last_step hs with hsame | ⟨f, o, hpc, hlast⟩
  · rw [hsame, ids_step hs]
    exact ih.imp_right (List.mem_append_left _)
  · have htask := (registry_run hrun).task
    rw [hpc] at htask
    rw [hlast, ids_step hs]
    exact .inr (List.mem_append_left _ (List.mem_of_getElem? htask.2))

/-- Where ids increase and none but `x` is above, there is one above at most. -/
theorem length_above_le_one {ids : List UInt32} {lastGood x : UInt32}
    (hids : ids.Pairwise (· < ·)) (h : ∀ k ∈ ids, k ≤ lastGood ∨ k = x) :
    (above lastGood ids).length ≤ 1 := by
  have hall : ∀ k ∈ above lastGood ids, k = x := fun k hk => by
    obtain ⟨hmem, hlt⟩ := List.mem_filter.mp hk
    rcases h k hmem with hle | heq
    · exact absurd (of_decide_eq_true hlt) (UInt32.not_lt.mpr hle)
    · exact heq
  have hpair : (above lastGood ids).Pairwise (· < ·) := hids.filter _
  cases habove : above lastGood ids with
  | nil => exact Nat.zero_le _
  | cons y rest =>
      cases rest with
      | nil => exact Nat.le_refl _
      | cons z rest =>
          rw [habove] at hall hpair
          have hlt := (List.pairwise_cons.mp hpair).1 z List.mem_cons_self
          rw [hall y List.mem_cons_self, hall z (by simp)] at hlt
          exact absurd hlt (UInt32.lt_irrefl x)

/-- A call of `close` loads the counter. -/
theorem loaded_now (h : (connection H).Run guard evs s) : Loaded s s.lastClientStreamId := by
  have hreg := registry_run h
  refine ⟨last_known h, ?_⟩
  cases hpc : s.readTask with
  | storeLast f o =>
      refine length_above_le_one (x := f.streamId) hreg.increasing fun k hk => ?_
      have hle := hreg.bounded k hk
      rwa [hpc] at hle
  | _ =>
      have hnone : above s.lastClientStreamId s.ids = [] := by
        refine List.filter_eq_nil_iff.mpr fun k hk hlt => ?_
        have hle := hreg.bounded k hk
        rw [hpc] at hle
        exact absurd (of_decide_eq_true hlt) (UInt32.not_lt.mpr hle)
      rw [hnone]
      simp [ReadTask.admits]

/-- No SYN_STREAM that is read from now on is let in. -/
def State.shut (s : State H) : Prop := s.goneAway = true ∨ s.readTask.leaving = true

theorem shut_step {s' : State H} {a : Action H} {es : List (Event H)}
    (hs : s.step a = some (s', es)) (h : s.shut) : s'.shut :=
  h.imp (gone_step hs) (closed_move hs).leaving

/-- Then a stream is registered only if the read task has looked at `gone_away` before. -/
theorem admits_step {s' : State H} {a : Action H} {es : List (Event H)}
    (hs : s.step a = some (s', es)) (hshut : s.shut) :
    (es.flatMap Event.acceptedId).length + s'.readTask.admits.toNat ≤
      s.readTask.admits.toNat := by
  cases step_kind hs with
  | aside ha kind =>
      rw [flatMap_quiet (fun _ => Event.acceptedId_quiet) ha.quiet, ha.readTask]
      exact Nat.le_of_eq (Nat.zero_add _)
  | read f pc state events =>
      have hnone := flatMap_rejectedAtOnce Event.acceptedId (fun _ _ => rfl) f
      rw [state, events, List.flatMap_cons, hnone]
      rcases dispatch_cases f with ⟨hplain, -⟩ | ⟨g, rfl, -, hnext⟩ | ⟨-, hnext⟩
      · cases hd : dispatch f with
        | register g =>
            rw [hd] at hplain
            cases hplain
        | _ => exact Nat.zero_le _
      · rw [hnext]
        exact Nat.zero_le _
      · rw [hnext]
        exact Nat.zero_le _
  | move hmove =>
      cases hmove with
      | plain still before next loop mute =>
          cases hpc : s'.readTask with
          | register g =>
              rw [hpc] at next
              cases next
          | _ => exact Nat.zero_le _
      | answer f c es pc channel events =>
          rw [flatMap_quiet (fun _ => Event.acceptedId_quiet) (answer_quiet events)]
          exact Nat.zero_le _
      | missed f pc miss =>
          cases f with
          | _ => exact Nat.zero_le _
      | passed f pc here =>
          rcases hshut with hgone | hleaving
          · rw [here] at hgone
            cases hgone
          · rw [pc] at hleaving
            cases hleaving
      | accept f pc notMem =>
          rw [pc]
          exact Nat.le_refl _
      | _ => exact Nat.zero_le _
  | worker i hmove action =>
      cases hmove with
      | _ => exact Nat.le_of_eq (Nat.zero_add _)

theorem Loaded.step {s' : State H} {a : Action H} {es : List (Event H)} {lastGood : UInt32}
    (h : Loaded s lastGood) (hgone : s.goneAway = true) (hs : s.step a = some (s', es)) :
    Loaded s' lastGood := by
  have hadmits := admits_step hs (.inl hgone)
  have hfew : (above lastGood (es.flatMap Event.acceptedId)).length ≤
      (es.flatMap Event.acceptedId).length := List.length_filter_le _ _
  have hlate := h.late
  refine ⟨?_, ?_⟩
  · rw [ids_step hs]
    exact h.known.imp_right (List.mem_append_left _)
  · have hids : above lastGood s'.ids =
        above lastGood s.ids ++ above lastGood (es.flatMap Event.acceptedId) := by
      rw [ids_step hs]
      exact List.filter_append _ _
    rw [hids, List.length_append]
    omega

/-- What the calls of `close` have announced, or are about to. -/
structure Announcements (evs : List (Event H)) (s : State H) : Prop where
  pending : ∀ lastGood, .sendGoAway lastGood ∈ s.closes → Loaded s lastGood
  sent : ∀ g ∈ evs.flatMap Event.goAway, g.status = .ok ∧ Loaded s g.lastGoodStreamId

theorem announcements_run (h : (connection H).Run guard evs s) : Announcements evs s := by
  refine h.invariant (I := Announcements) ⟨?_, ?_⟩ ?_
  · intro lastGood hmem
    cases hmem
  · intro g hmem
    cases hmem
  intro evs es s s' a hrun _ hs ih
  have hgoneOf : ∀ {c}, c ∈ s.closes → c.announces = true → s.goneAway = true :=
    fun hc hann => gone_of_announces hrun hc hann
  have hpending : ∀ lastGood, .sendGoAway lastGood ∈ s.closes → Loaded s' lastGood :=
    fun lastGood hmem => (ih.pending lastGood hmem).step (hgoneOf hmem rfl) hs
  have hsent : ∀ g ∈ evs.flatMap Event.goAway, g.status = .ok ∧ Loaded s' g.lastGoodStreamId := by
    intro g hg
    have hgone : s.goneAway = true := by
      have hone := (elected_run hrun).sent
      have hpos := List.length_pos_of_mem hg
      cases hgone : s.goneAway with
      | true => rfl
      | false =>
          rw [hgone, Bool.toNat_false] at hone
          omega
    exact ⟨(ih.sent g hg).1, (ih.sent g hg).2.step hgone hs⟩
  have hsilent : es.flatMap Event.goAway = [] →
      ∀ g ∈ (evs ++ es).flatMap Event.goAway, g.status = .ok ∧ Loaded s' g.lastGoodStreamId := by
    intro hnone g hg
    rw [List.flatMap_append, hnone, List.append_nil] at hg
    exact hsent g hg
  have hset : ∀ (k : Nat) (c' : CloseCall), (∀ lastGood, c' ≠ .sendGoAway lastGood) →
      ∀ lastGood, .sendGoAway lastGood ∈ s.closes.set k c' → Loaded s' lastGood := by
    intro k c' hc' lastGood hmem
    rcases List.mem_or_eq_of_mem_set hmem with hold | heq
    · exact hpending lastGood hold
    · exact absurd heq.symm (hc' lastGood)
  cases closes_move hrun hs with
  | same closes gone silent =>
      refine ⟨?_, hsilent silent⟩
      rw [closes]
      exact hpending
  | opens closes gone silent =>
      refine ⟨fun lastGood hmem => ?_, hsilent silent⟩
      rw [closes, List.mem_append] at hmem
      rcases hmem with hold | hnew
      · exact hpending lastGood hold
      · cases List.mem_singleton.mp hnew
  | givesUp k get closes gone silent =>
      refine ⟨?_, hsilent silent⟩
      rw [closes]
      exact hset k _ (by simp)
  | own k step =>
      cases step with
      | late get gone | first get here | unsent lastGood get closed | broadcasts get
      | drained get unlocked empty => exact ⟨hset k _ (by simp), hsilent rfl⟩
      | loads get =>
          refine ⟨fun lastGood hmem => ?_, hsilent rfl⟩
          rcases List.mem_or_eq_of_mem_set hmem with hold | heq
          · exact hpending lastGood hold
          · cases heq
            exact (loaded_now hrun).step (hgoneOf (List.mem_of_getElem? get) rfl) hs
      | sends lastGood c get send =>
          refine ⟨hset k _ (by simp), fun g hg => ?_⟩
          rw [List.flatMap_append, List.mem_append] at hg
          rcases hg with hold | hnew
          · exact hsent g hold
          · cases List.mem_singleton.mp hnew
            exact ⟨rfl, hpending lastGood (List.mem_of_getElem? get)⟩

/-! ## One GOAWAY -/

/-- What many calls of `close` come to. -/
structure GoneOnce (evs : List (Event H)) (s : State H) : Prop where
  /-- one GOAWAY at most is sent, by whichever task -/
  once : (evs.flatMap Event.goAway).length ≤ 1
  /-- and one call at most is under way; the others have returned or are before the swap -/
  alone : s.closes.countP CloseCall.isClosing ≤ 1
  /-- it says `ok`, and names the id of a stream, or 0 -/
  known : ∀ g ∈ evs.flatMap Event.goAway,
    g.status = .ok ∧ (g.lastGoodStreamId = 0 ∨ g.lastGoodStreamId ∈ evs.flatMap Event.acceptedId)
  /-- one stream at most is ever registered with a higher id -/
  late : ∀ g ∈ evs.flatMap Event.goAway,
    (above g.lastGoodStreamId (evs.flatMap Event.acceptedId)).length ≤ 1

/-- **One GOAWAY.**  However many calls of `close` race with each other, with a GOAWAY of the
peer and with the registration of streams, one of them at most gets through and sends one
GOAWAY, and one stream at most is ever registered above what it announces. -/
theorem goAway_once (h : (connection H).Reached evs s) : GoneOnce evs s := by
  have helected := elected_run h
  have hann := announcements_run h
  have hflag : s.goneAway.toNat ≤ 1 := Bool.toNat_le _
  have hsent := helected.sent
  refine ⟨by omega, helected.closing.trans hflag, fun g hg => ?_, fun g hg => ?_⟩
  · rw [accepted_ids h]
    exact ⟨(hann.sent g hg).1, (hann.sent g hg).2.known⟩
  · rw [accepted_ids h]
    have hlate := (hann.sent g hg).2.late
    omega

/-- Two calls of `close` while a SYN_STREAM is being registered: GOAWAY announces 1, and
stream 3 is served. -/
theorem goAway_once_race : ∃ evs s, (connection Unit).Reached evs s ∧
    evs.flatMap Event.goAway = [{ lastGoodStreamId := 1, status := .ok }] ∧
    evs.flatMap Event.acceptedId = [1, 3] ∧ GoneOnce evs s := by
  obtain ⟨evs, s, h, hcheck⟩ := Machine.exists_run_of_exec (connection Unit) Machine.free
    (registers (plainSyn 1 0) ++ [.read (.synStream (plainSyn 3 0)), .readTask 0, .readTask 0] ++
      [.close, .close, .closeStep 1, .closeStep 0, .closeStep 1, .closeStep 1] ++
      List.replicate 3 (.readTask 0))
    (fun evs _ => decide (
      evs.flatMap Event.goAway = [{ lastGoodStreamId := 1, status := .ok }] ∧
      evs.flatMap Event.acceptedId = [1, 3]))
    (by decide +kernel)
  obtain ⟨hsent, haccepted⟩ := of_decide_eq_true hcheck
  exact ⟨evs, s, h, hsent, haccepted, goAway_once h⟩

/-! ## `wait_closed` -/

/-- `wait_closed` returns. -/
def State.waitClosed (s : State H) : Bool := s.closed

theorem shut_of_closed (h : (connection H).Run guard evs s) (hclosed : s.closed = true) :
    s.shut := by
  refine h.invariant (I := fun _ s => s.closed = true → s.shut) ?_ ?_ hclosed
  · intro hclosed
    cases hclosed
  · intro evs es s s' a hrun _ hs ih hclosed
    rcases (closed_move hs).why hclosed with hold | hleaving | hmem
    · exact shut_step hs (ih hold)
    · exact .inr hleaving
    · refine shut_step hs (.inl ?_)
      have hone := (elected_run hrun).closing
      have hpos : 0 < s.closes.countP CloseCall.isClosing := List.countP_pos_iff.mpr ⟨_, hmem, rfl⟩
      cases hgone : s.goneAway with
      | true => rfl
      | false =>
          rw [hgone, Bool.toNat_false] at hone
          omega

/-- What happens from where the connection is shut. -/
theorem path_of_shut {s' : State H} {path : List (TakenStep H)}
    (hpath : (connection H).Path s path s') (h : s.shut) :
    s'.shut ∧ ((path.flatMap Machine.Taken.events).flatMap Event.acceptedId).length +
      s'.readTask.admits.toNat ≤ s.readTask.admits.toNat := by
  induction hpath with
  | stay s => exact ⟨h, Nat.le_of_eq (Nat.zero_add _)⟩
  | @step _ _ s'' _ es path hs _ ih =>
      obtain ⟨hshut, hrest⟩ := ih (shut_step hs h)
      have hone := admits_step hs h
      refine ⟨hshut, ?_⟩
      show ((es ++ path.flatMap Machine.Taken.events).flatMap Event.acceptedId).length +
        s''.readTask.admits.toNat ≤ _
      rw [List.flatMap_append, List.length_append]
      omega

/-- **The last stream.**  When `wait_closed` has returned one stream at most is still
registered, whatever the peer sends and whoever calls; and none if the read task was not
about to register one. -/
theorem waitClosed_lastStream (h : (connection H).Reached evs s) (hclosed : s.waitClosed = true)
    {s' : State H} {path : List (TakenStep H)} (hpath : (connection H).Path s path s') :
    ((path.flatMap Machine.Taken.events).flatMap Event.acceptedId).length ≤ 1 ∧
      (s.readTask.admits = false →
        (path.flatMap Machine.Taken.events).flatMap Event.acceptedId = []) := by
  have hle := (path_of_shut hpath (shut_of_closed h hclosed)).2
  have hflag : s.readTask.admits.toNat ≤ 1 := Bool.toNat_le _
  refine ⟨by omega, fun hnot => ?_⟩
  rw [hnot, Bool.toNat_false] at hle
  exact List.length_eq_zero_iff.mp (by omega)

/-- `close` sets `close_tx` while a SYN_STREAM is about to be registered, and it is
registered. -/
theorem waitClosed_lastStream_one : ∃ evs s path s', (connection Unit).Reached evs s ∧
    s.waitClosed = true ∧ (connection Unit).Path s path s' ∧
    (path.flatMap Machine.Taken.events).flatMap Event.acceptedId = [1] ∧
    ((path.flatMap Machine.Taken.events).flatMap Event.acceptedId).length ≤ 1 := by
  obtain ⟨evs, s, h, hcheck⟩ := Machine.exists_run_of_exec (connection Unit) Machine.free
    ([.read (.synStream (plainSyn 1 0)), .readTask 0, .readTask 0] ++
      Action.close :: List.replicate 4 (.closeStep 0))
    (fun _ s => decide (s.waitClosed = true ∧
      (s.step (.readTask 0)).map (fun r => r.2.flatMap Event.acceptedId) = some [1]))
    (by decide +kernel)
  obtain ⟨hclosed, hnext⟩ := of_decide_eq_true hcheck
  obtain ⟨⟨s', es⟩, hs, hes⟩ := Option.map_eq_some_iff.mp hnext
  have hstep : (connection Unit).step s (.readTask 0) = some (s', es) := hs
  have hpath := Machine.Path.one hstep
  have hone : ([(⟨s, .readTask 0, s', es⟩ : TakenStep Unit)].flatMap
      Machine.Taken.events).flatMap Event.acceptedId = [1] := by
    rw [List.flatMap_singleton]
    exact hes
  exact ⟨evs, s, _, s', h, hclosed, hpath, hone, (waitClosed_lastStream h hclosed hpath).1⟩

end SpdyStream.Session
