/-
  Session/FinStored.lean --- what `local_fin_sent` says between calls.

  `send_reply` and `poll_shutdown` store the flag behind their send; `write_data`
  stores it before, and does not take it back when the send fails or is dropped.
  `FinTracked` ties the flag to the FIN and to the calls that are between the two.
-/
import SpdyStream.Session.LocalFin
import SpdyStream.Session.ReplyGate

set_option autoImplicit false

namespace SpdyStream.Session

open SpdyStream.Foundation
open SpdyStream.Framing

variable {H : Type}

/-! ## Calls of a stream -/

/-- A `send_reply`, a `write_data` or a `poll_shutdown` is in progress. -/
def CallPc.mayFin : CallPc H → Bool
  | .replySend _ _ | .replyStoreReplied _ | .replyNotify _ | .replyStoreFin => true
  | .writeLoad _ _ | .writeNotified _ _ | .writeReload _ _ _ | .writeWait _ _ _ => true
  | .writeCheckFin _ _ | .writeStoreFin _ | .writeSend _ _ => true
  | .shutdownLoad | .shutdownSend | .shutdownStore => true
  | _ => false

theorem mayFin_of_owes {pc : CallPc H} (h : pc.owesStore = true ∨ pc.owesFin = true) :
    pc.mayFin = true := by
  cases pc with
  | replyStoreReplied _ | replyNotify _ | replyStoreFin | writeSend _ _ | shutdownStore => rfl
  | _ => simp [CallPc.owesStore, CallPc.owesFin] at h

section Calls

variable {s s' : State H} {o j : Nat} {pc pc' : CallPc H} {p : CallPc H → Bool}

theorem anyCall_congr (hpcs : ∀ i, s'.pcOf o i = s.pcOf o i) : s'.anyCall o p = s.anyCall o p := by
  rw [Bool.eq_iff_iff, anyCall_iff, anyCall_iff]
  simp only [hpcs]

/-- A call comes to a place with the property. -/
theorem anyCall_enter (hpcs : ∀ i, s'.pcOf o i = if i = j then some pc' else s.pcOf o i)
    (hp : p pc' = true) : s'.anyCall o p = true :=
  anyCall_iff.mpr ⟨j, pc', by rw [hpcs, if_pos rfl], hp⟩

/-- The call that moved has not the property now: another call has it. -/
theorem anyCall_other (hpcs : ∀ i, s'.pcOf o i = if i = j then some pc' else s.pcOf o i)
    (hp : p pc' = false) (h : s'.anyCall o p = true) : s.anyCall o p = true := by
  obtain ⟨i, pc, hpc, hpi⟩ := anyCall_iff.mp h
  rw [hpcs] at hpc
  split at hpc
  · cases hpc
    rw [hp] at hpi
    cases hpi
  · exact anyCall_iff.mpr ⟨i, pc, hpc, hpi⟩

/-- The call that moved had not the property: the others are where they were. -/
theorem anyCall_keep (hpc : ∀ pc, s.pcOf o j = some pc → p pc = false)
    (hpcs : ∀ i, s'.pcOf o i = if i = j then some pc' else s.pcOf o i)
    (h : s.anyCall o p = true) : s'.anyCall o p = true := by
  obtain ⟨i, pc, hget, hp⟩ := anyCall_iff.mp h
  have hi : i ≠ j := fun hi => by
    rw [hpc pc (hi ▸ hget)] at hp
    cases hp
  exact anyCall_iff.mpr ⟨i, pc, by rw [hpcs, if_neg hi, hget], hp⟩

/-- The property is that of the call before it moved. -/
theorem anyCall_same (hpc : s.pcOf o j = some pc) (hp : p pc' = p pc)
    (hpcs : ∀ i, s'.pcOf o i = if i = j then some pc' else s.pcOf o i) :
    s'.anyCall o p = s.anyCall o p := by
  cases hpc' : p pc with
  | true =>
      rw [anyCall_enter hpcs (hp.trans hpc'), eq_comm]
      exact anyCall_iff.mpr ⟨j, pc, hpc, hpc'⟩
  | false =>
      have hold : ∀ q, s.pcOf o j = some q → p q = false := fun q hq => by
        rw [hpc] at hq
        cases hq
        exact hpc'
      exact Bool.eq_iff_iff.mpr ⟨anyCall_other hpcs (hp.trans hpc'), anyCall_keep hold hpcs⟩

end Calls

/-! ## The condition -/

/-- A FIN of stream `o` has been accepted. -/
def State.finSent (o : Nat) (evs : List (Event H)) (s : State H) : Bool :=
  match s.ids[o]? with
  | none => false
  | some k => (evs.flatMap (Event.sentOn k)).any carriesFin

/-- A call other than the `j`-th has stored `local_fin_sent` of stream `o`, and its
FIN is not in the channel yet. -/
def State.otherOwesFin (o j : Nat) (s : State H) : Bool :=
  (List.range s.calls.length).any fun i => decide (i ≠ j) && (s.pcOf o i).any CallPc.owesFin

/-- The call whose FIN the action gives up: a `write_data` that has stored
`local_fin_sent` of stream `o`, and is dropped at its send or finds the channel
closed. -/
def State.givesUpFin (o : Nat) (s : State H) : Action H → Option Nat
  | .cancel j => if (s.pcOf o j).any CallPc.owesFin then some j else none
  | .call j _ =>
      if (s.pcOf o j).any CallPc.owesFin && !s.writeChannel.isOpen then some j else none
  | _ => none

/-- The condition under which `local_fin_sent` of stream `o` is what its name says: a
stored FIN is given up only when one is sent already, or another call has one to
send. -/
def FinStored (o : Nat) (evs : List (Event H)) (s : State H) (a : Action H) : Prop :=
  ∀ j, s.givesUpFin o a = some j → s.finSent o evs = true ∨ s.otherOwesFin o j = true

instance (o : Nat) (evs : List (Event H)) (s : State H) (a : Action H) :
    Decidable (FinStored o evs s a) :=
  match h : s.givesUpFin o a with
  | none => isTrue fun j hj => by rw [h] at hj; cases hj
  | some j =>
      decidable_of_iff (s.finSent o evs = true ∨ s.otherOwesFin o j = true)
        ⟨fun hor i hi => by rw [h] at hi; cases hi; exact hor, fun hall => hall j h⟩

theorem finSent_of_id {o : Nat} {evs : List (Event H)} {s : State H} {k : UInt32}
    (hk : s.ids[o]? = some k) :
    s.finSent o evs = (evs.flatMap (Event.sentOn k)).any carriesFin := by
  rw [State.finSent, hk]

theorem otherOwesFin_iff {o j : Nat} {s : State H} : s.otherOwesFin o j = true ↔
    ∃ i pc, i ≠ j ∧ s.pcOf o i = some pc ∧ pc.owesFin = true := by
  rw [State.otherOwesFin, List.any_eq_true]
  constructor
  · rintro ⟨i, -, hi⟩
    rw [Bool.and_eq_true, decide_eq_true_eq, Option.any_eq_true_iff_get] at hi
    obtain ⟨hne, hsome, howes⟩ := hi
    exact ⟨i, _, hne, Option.eq_some_of_isSome hsome, howes⟩
  · rintro ⟨i, pc, hne, hpc, howes⟩
    have hlt := (List.getElem?_eq_some_iff.mp (pcOf_eq_some.mp hpc)).1
    exact ⟨i, List.mem_range.mpr hlt, by simp [hne, hpc, howes]⟩

/-! ## The flag and the FIN -/

/-- How the flag of stream `o` and the frames `sent` on it go together while calls
are in progress. -/
structure FinTracked (o : Nat) (sent : List (Frame H)) (s : State H) : Prop where
  stored : sent.any carriesFin = true →
    s.finFlag o = true ∨ s.anyCall o CallPc.owesStore = true
  backed : s.finFlag o = true → sent.any carriesFin = true ∨ s.anyCall o CallPc.owesFin = true
  due : s.anyCall o CallPc.owesStore = true → sent.any carriesFin = true
  claimed : s.anyCall o CallPc.owesFin = true → s.finFlag o = true

section Steps

variable {s s' : State H} {o j : Nat} {pc pc' : CallPc H} {sent fs : List (Frame H)}

theorem any_concat_plain (hfs : ∀ f ∈ fs, carriesFin f = false) :
    (sent ++ fs).any carriesFin = sent.any carriesFin := by
  have hnone : fs.any carriesFin = false := List.any_eq_false.mpr fun f hf => by simp [hfs f hf]
  rw [List.any_append, hnone, Bool.or_false]

/-- Nothing happens about the FIN. -/
theorem FinTracked.congr (h : FinTracked o sent s) (hfs : ∀ f ∈ fs, carriesFin f = false)
    (hflag : s'.finFlag o = s.finFlag o)
    (hstores : s'.anyCall o CallPc.owesStore = s.anyCall o CallPc.owesStore)
    (hfins : s'.anyCall o CallPc.owesFin = s.anyCall o CallPc.owesFin) :
    FinTracked o (sent ++ fs) s' := by
  have hany : (sent ++ fs).any carriesFin = sent.any carriesFin := any_concat_plain hfs
  refine ⟨?_, ?_, ?_, ?_⟩
  · rw [hany, hflag, hstores]
    exact h.stored
  · rw [hany, hflag, hfins]
    exact h.backed
  · rw [hany, hstores]
    exact h.due
  · rw [hflag, hfins]
    exact h.claimed

/-- A call leaves with nothing done about the FIN. -/
theorem FinTracked.leave (h : FinTracked o sent s) (hpc : s.pcOf o j = some pc)
    (hpcs : ∀ i, s'.pcOf o i = if i = j then some pc' else s.pcOf o i)
    (hflag : s'.finFlag o = s.finFlag o) (hstores : pc'.owesStore = pc.owesStore)
    (hfins : pc'.owesFin = false)
    (hguard : pc.owesFin = true → sent.any carriesFin = true ∨ s.otherOwesFin o j = true) :
    FinTracked o sent s' := by
  have hsame := anyCall_same hpc hstores hpcs
  refine ⟨?_, fun hset => ?_, ?_, fun hany => ?_⟩
  · rw [hflag, hsame]
    exact h.stored
  · have hothers : pc.owesFin = false → s.anyCall o CallPc.owesFin = true →
        s'.anyCall o CallPc.owesFin = true := fun hnot =>
      anyCall_keep (fun q hq => by rw [hpc] at hq; cases hq; exact hnot) hpcs
    cases howes : pc.owesFin with
    | false => exact (h.backed (hflag ▸ hset)).imp_right (hothers howes)
    | true =>
        refine (hguard howes).imp_right fun hother => ?_
        obtain ⟨i, q, hne, hq, hqowes⟩ := otherOwesFin_iff.mp hother
        exact anyCall_iff.mpr ⟨i, q, by rw [hpcs, if_neg hne, hq], hqowes⟩
  · rw [hsame]
    exact h.due
  · rw [hflag]
    exact h.claimed (anyCall_other hpcs hfins hany)

/-- A call on the stream goes on. -/
theorem FinTracked.call {k : UInt32} {alt : Bool} {st : Stream H} {out : CallOutcome H}
    (h : FinTracked o sent s) (hpc : s.pcOf o j = some pc) (hst : s.objs[o]? = some st)
    (hk : st.streamId = k) (hout : callStep alt pc st s.writeChannel = some out)
    (hguard : pc.owesFin = true → s.writeChannel.isOpen = false →
      sent.any carriesFin = true ∨ s.otherOwesFin o j = true)
    (hnow : s'.objs[o]? = some out.stream)
    (hpcs : ∀ i, s'.pcOf o i = if i = j then some out.pc else s.pcOf o i) :
    FinTracked o (sent ++ (out.effects.map (callEvent j o)).flatMap (Event.sentOn k)) s' := by
  have hflag := finFlag_of_get hst
  have hflag' := finFlag_of_get hnow
  cases callStep_fin hout with
  | idle notices flag stores fins =>
      refine h.congr (fun f hf => ?_) (by rw [hflag, hflag', flag]) (anyCall_same hpc stores hpcs)
        (anyCall_same hpc fins hpcs)
      obtain ⟨-, src, he⟩ := mem_sentOn.mp hf
      obtain ⟨eff, heff, heq⟩ := List.mem_map.mp he
      cases eff with
      | enqueued g =>
          cases heq
          exact (notice_plain (notices f heff)).2
      | delivered d => cases heq
  | closed isOpen effects flag stores fins =>
      rw [effects, List.map_nil, List.flatMap_nil, List.append_nil]
      exact h.leave hpc hpcs (by rw [hflag, hflag', flag]) (by rw [stores.1, stores.2]) fins
        fun howes => hguard howes isOpen
  | claim barred respects effects flag stores fins =>
      have hset : s'.finFlag o = true := hflag'.trans flag
      rw [effects, List.map_nil, List.flatMap_nil, List.append_nil]
      refine ⟨fun _ => .inl hset, fun _ => .inr (anyCall_enter hpcs fins.2), ?_, fun _ => hset⟩
      rw [anyCall_same hpc (by rw [stores.1, stores.2]) hpcs]
      exact h.due
  | settle effects flag stores fins =>
      have hset : s'.finFlag o = true := hflag'.trans flag
      have hsent := h.due (anyCall_iff.mpr ⟨j, pc, hpc, stores.1⟩)
      rw [effects, List.map_nil, List.flatMap_nil, List.append_nil]
      exact ⟨fun _ => .inl hset, fun _ => .inl hsent, fun _ => hsent, fun _ => hset⟩
  | redeem f isOpen isFin isResponse effects target flag stores fins =>
      have hset : s'.finFlag o = true := by
        rw [hflag', flag, ← hflag]
        exact h.claimed (anyCall_iff.mpr ⟨j, pc, hpc, fins.1⟩)
      have hsent : (sent ++ [f]).any carriesFin = true := by simp [isFin]
      rw [sentOn_call effects, if_pos (target.trans hk)]
      exact ⟨fun _ => .inl hset, fun _ => .inl hsent, fun _ => hsent, fun _ => hset⟩
  | fin f isOpen isFin isResponse effects target flag respects stores fins =>
      have hsent : (sent ++ [f]).any carriesFin = true := by simp [isFin]
      have hsame : s'.finFlag o = s.finFlag o := by rw [hflag, hflag', flag]
      rw [sentOn_call effects, if_pos (target.trans hk)]
      refine ⟨fun _ => .inr (anyCall_enter hpcs stores.2), fun _ => .inl hsent, fun _ => hsent, ?_⟩
      rw [hsame, anyCall_same hpc (by rw [fins.1, fins.2]) hpcs]
      exact h.claimed
  | plain f isOpen notFin isResponse effects target flag respects stores fins =>
      rw [sentOn_call effects, if_pos (target.trans hk)]
      refine h.congr (fun g hg => ?_) (by rw [hflag, hflag', flag])
        (anyCall_same hpc (by rw [stores.1, stores.2]) hpcs)
        (anyCall_same hpc (by rw [fins.1, fins.2]) hpcs)
      rw [List.mem_singleton.mp hg]
      exact notFin

end Steps

theorem onStream_localFinSent (op : WorkerOp) (st : Stream H) :
    (op.onStream st).localFinSent = st.localFinSent := by
  cases op with
  | pushData data =>
      simp only [WorkerOp.onStream, Stream.pushData]
      split
      · rfl
      · rfl
  | _ => rfl

variable {guard : List (Event H) → State H → Action H → Prop} {evs : List (Event H)} {s : State H}

theorem finTracked_step (hrun : (connection H).Run guard evs s) {s' : State H} {a : Action H}
    {es : List (Event H)} (hs : s.step a = some (s', es)) {o : Nat} {k : UInt32}
    (hk : s'.ids[o]? = some k)
    (hguard : ∀ j, s.givesUpFin o a = some j →
      (evs.flatMap (Event.sentOn k)).any carriesFin = true ∨ s.otherOwesFin o j = true)
    (h : FinTracked o (evs.flatMap (Event.sentOn k)) s) :
    FinTracked o ((evs ++ es).flatMap (Event.sentOn k)) s' := by
  rw [List.flatMap_append]
  cases stream_step hrun hs o with
  | call j alt pc st out action get obj outcome now calls events =>
      have hid := (ids_grow hs (ids_of_get obj)).symm.trans hk
      rw [events]
      refine h.call get obj (Option.some.inj hid) outcome (fun howes hclosed => hguard j ?_) now
        calls
      rw [action]
      simp [State.givesUpFin, get, howes, hclosed]
  | cancel j pc pc' st st' action get obj outcome now calls events =>
      obtain ⟨hflag, hstores, hfins⟩ := callCancel_fin outcome
      rw [events, List.flatMap_nil, List.append_nil]
      refine h.leave get calls ?_ hstores hfins fun howes => hguard j ?_
      · rw [finFlag_of_get now, finFlag_of_get obj, hflag]
      · rw [action]
        simp [State.givesUpFin, get, howes]
  | invoke j r action fresh now calls events =>
      obtain ⟨hstores, hfins⟩ := entry_owes r
      have hnone : ∀ p : CallPc H → Bool, p r.entry = false →
          s'.anyCall o p = s.anyCall o p := fun p hp =>
        Bool.eq_iff_iff.mpr ⟨anyCall_other calls hp,
          anyCall_keep (fun q hq => by rw [fresh] at hq; cases hq) calls⟩
      rw [events]
      exact h.congr (by simp [Event.sentOn]) (by rw [State.finFlag, State.finFlag, now])
        (hnone _ hstores) (hnone _ hfins)
  | work i op rest st action stream todo obj now calls events =>
      rw [events, shown_sentOn]
      refine h.congr (by simp) ?_ (anyCall_congr calls) (anyCall_congr calls)
      rw [finFlag_of_get now, finFlag_of_get obj, onStream_localFinSent]
  | sweep st sweeps obj now calls events =>
      rw [events]
      refine h.congr (by simp) ?_ (anyCall_congr calls) (anyCall_congr calls)
      rw [finFlag_of_get now, finFlag_of_get obj]
      rfl
  | make f pc before now calls events =>
      rw [events]
      refine h.congr (by simp [Event.sentOn]) ?_ (anyCall_congr calls) (anyCall_congr calls)
      rw [finFlag_of_get now, State.finFlag, before]
      rfl
  | other same calls unswept silent sent =>
      refine h.congr (fun f hf => ?_) (by rw [State.finFlag, State.finFlag, same])
        (anyCall_congr calls) (anyCall_congr calls)
      obtain ⟨htarget, src, he⟩ := mem_sentOn.mp hf
      rcases sent src f he with hnotice | hid
      · exact (notice_plain hnotice).2
      · refine absurd ?_ hid
        rw [State.ids, List.getElem?_map, same, ← List.getElem?_map] at hk
        rw [htarget]
        exact hk

/-- A stream begins with no FIN. -/
theorem finTracked_new (hrun : (connection H).Run guard evs s) {o : Nat} {k : UInt32}
    (hnone : s.objs[o]? = none) (hk : k ∉ s.ids) :
    FinTracked o (evs.flatMap (Event.sentOn k)) s := by
  have hany : ∀ p : CallPc H → Bool, s.anyCall o p = false := fun p =>
    eq_false_of_ne_true fun h => by
      obtain ⟨j, pc, hpc, -⟩ := anyCall_iff.mp h
      rw [pcOf_none hrun hnone] at hpc
      cases hpc
  have hflag : s.finFlag o = false := by rw [State.finFlag, hnone]
  have hempty : FinTracked (H := H) o [] s :=
    ⟨by simp, by simp [hflag], by simp [hany], by simp [hany]⟩
  refine hempty.congr (fun f hf => ?_) rfl rfl rfl
  rcases sentOn_id hrun hf with hnotice | hmem
  · exact (notice_plain hnotice).2
  · exact absurd hmem hk

theorem fin_tracked {o : Nat} {k : UInt32} (h : (connection H).Run (FinStored o) evs s)
    (hk : s.ids[o]? = some k) : FinTracked o (evs.flatMap (Event.sentOn k)) s := by
  refine h.invariant (I := fun evs s => s.ids[o]? = some k →
    FinTracked o (evs.flatMap (Event.sentOn k)) s) ?_ ?_ hk
  · intro hk
    cases hk
  · intro evs es s s' a hrun hguard hs ih hk
    cases hst : s.objs[o]? with
    | some st =>
        have hid := ids_of_get hst
        have heq := ids_grow hs hid
        rw [hk] at heq
        cases heq
        refine finTracked_step hrun hs hk (fun j hj => ?_) (ih hid)
        rw [← finSent_of_id hid]
        exact hguard j hj
    | none =>
        have hnew : k ∉ s.ids := fun hmem => by
          obtain ⟨i, hi⟩ := List.getElem?_of_mem hmem
          cases (registry_run (hrun.step hguard hs)).unique (ids_grow hs hi) hk
          rw [State.ids, List.getElem?_map, hst] at hi
          cases hi
        refine finTracked_step hrun hs hk (fun j hj => ?_) (finTracked_new hrun hst hnew)
        have hpc : s.pcOf o j = none := pcOf_none hrun hst j
        cases a with
        | cancel i | call i _ =>
            simp only [State.givesUpFin] at hj
            split at hj
            · cases hj
              rename_i howes
              simp [hpc] at howes
            · cases hj
        | _ => cases hj

/-! ## Between calls -/

/-- `local_fin_sent` of stream `o` is set when a FIN is among the frames `sent` on it,
and only then; and while there is none, `poll_shutdown` goes on to send it. -/
structure FinTold (o : Nat) (sent : List (Frame H)) (s : State H) : Prop where
  flag : s.finFlag o = true ↔ ∃ f ∈ sent, carriesFin f = true
  shutdown : (∀ f ∈ sent, carriesFin f = false) → ∀ (st : Stream H) (alt : Bool),
    s.objs[o]? = some st →
    callStep alt .shutdownLoad st s.writeChannel = some ⟨.shutdownSend, st, s.writeChannel, []⟩

/-- While no call has a store or a FIN to do, the flag tells. -/
theorem FinTracked.told {o : Nat} {sent : List (Frame H)} (h : FinTracked o sent s)
    (hquiet : s.anyCall o CallPc.mayFin = false) : FinTold o sent s := by
  have hnone : ∀ p : CallPc H → Bool, (∀ pc, p pc = true → pc.mayFin = true) →
      s.anyCall o p = false := fun p hp => eq_false_of_ne_true fun hany => by
    obtain ⟨j, pc, hpc, howes⟩ := anyCall_iff.mp hany
    rw [anyCall_iff.mpr ⟨j, pc, hpc, hp pc howes⟩] at hquiet
    cases hquiet
  have hstores := hnone CallPc.owesStore fun _ howes => mayFin_of_owes (.inl howes)
  have hfins := hnone CallPc.owesFin fun _ howes => mayFin_of_owes (.inr howes)
  have hflag : s.finFlag o = true ↔ ∃ f ∈ sent, carriesFin f = true := by
    rw [← List.any_eq_true]
    constructor
    · intro hset
      simpa [hfins] using h.backed hset
    · intro hsent
      simpa [hstores] using h.stored hsent
  refine ⟨hflag, fun hplain st alt hst => ?_⟩
  have hclear : st.localFinSent = false := by
    rw [← finFlag_of_get hst]
    refine eq_false_of_ne_true fun hset => ?_
    obtain ⟨f, hf, hfin⟩ := hflag.mp hset
    rw [hplain f hf] at hfin
    cases hfin
  simp [callStep, hclear]

/-- **The flag and the FIN.**  If no `write_data` gives up a FIN that it has stored,
unless one is sent or another call has one to send, then between calls
`local_fin_sent` is set exactly when a FIN of the stream has been accepted. -/
theorem finFlag_told {o : Nat} {k : UInt32} (h : (connection H).Run (FinStored o) evs s)
    (hk : s.ids[o]? = some k) (hquiet : s.anyCall o CallPc.mayFin = false) :
    FinTold o (evs.flatMap (Event.sentOn k)) s :=
  (fin_tracked h hk).told hquiet

/-- A handler replies; of two writers that end the stream one is dropped at its send,
and the other sends. -/
theorem finFlag_told_twoWriters : ∃ evs s, (connection Unit).Run (FinStored 0) evs s ∧
    s.finFlag 0 = true ∧ (∃ j, s.pcOf 0 j = some (.returned .cancelled)) ∧
    FinTold 0 (evs.flatMap (Event.sentOn 1)) s := by
  obtain ⟨evs, s, h, hcheck⟩ := Machine.exists_run_of_exec (connection Unit) (FinStored 0)
    (registers (plainSyn 1 0) ++ applies (.synStream (plainSyn 1 0)) ++
      Action.invoke 0 (.sendReply () false) :: calls 0 3 ++
      Action.invoke 0 (.writeData [1] true) :: Action.invoke 0 (.writeData [2] true) ::
      calls 1 2 ++ calls 2 2 ++ calls 1 1 ++ calls 2 1 ++ Action.cancel 1 :: calls 2 1)
    (fun _ s => decide (s.ids[0]? = some 1 ∧ s.anyCall 0 CallPc.mayFin = false ∧
      s.finFlag 0 = true ∧ s.pcOf 0 1 = some (.returned .cancelled)))
    (by decide +kernel)
  obtain ⟨hid, hquiet, hflag, hpc⟩ := of_decide_eq_true hcheck
  exact ⟨evs, s, h, hflag, ⟨1, hpc⟩, finFlag_told h hid hquiet⟩

/-- A `write_data` that finds the channel closed leaves the flag set, and no FIN was
accepted. -/
theorem finFlag_stale : ¬ ∀ evs (s : State Unit) (o : Nat) (k : UInt32),
    (connection Unit).Reached evs s → s.ids[o]? = some k →
    s.anyCall o CallPc.mayFin = false → FinTold o (evs.flatMap (Event.sentOn k)) s := by
  intro hall
  obtain ⟨evs, s, h, hcheck⟩ := Machine.exists_run_of_exec (connection Unit) Machine.free
    (registers (plainSyn 1 0) ++ applies (.synStream (plainSyn 1 0)) ++
      Action.invoke 0 (.sendReply () false) :: calls 0 3 ++
      Action.writeFail :: Action.invoke 0 (.writeData [1] true) :: calls 1 4)
    (fun evs s => decide (s.ids[0]? = some 1 ∧ s.anyCall 0 CallPc.mayFin = false ∧
      s.finFlag 0 = true ∧ (evs.flatMap (Event.sentOn 1)).all (fun f => !carriesFin f) = true))
    (by decide +kernel)
  obtain ⟨hid, hquiet, hflag, hsent⟩ := of_decide_eq_true hcheck
  obtain ⟨f, hf, hfin⟩ := (hall evs s 0 1 h hid hquiet).flag.mp hflag
  have hplain := List.all_eq_true.mp hsent f hf
  rw [hfin] at hplain
  cases hplain

end SpdyStream.Session
