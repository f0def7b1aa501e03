/-
  Session/LocalFin.lean --- the FIN of the server's side of a stream.

  `write_data` looks at `local_fin_sent`, sets it and then sends; `poll_shutdown`
  looks, sends and then sets; `send_reply` sets without looking, after the send;
  `poll_write` does neither.  `FinKept` is what a stream keeps when every call
  still finds the flag as a writer should: the FIN is the last response.
-/
import SpdyStream.Session.Calls

set_option autoImplicit false

namespace SpdyStream.Session

open SpdyStream.Foundation
open SpdyStream.Framing

variable {H : Type}

/-! ## Calls and the flag -/

/-- The FIN of the call is in the channel, and `local_fin_sent` is not stored yet. -/
def CallPc.owesStore : CallPc H → Bool
  | .replyStoreReplied fin | .replyNotify fin => fin
  | .replyStoreFin | .shutdownStore => true
  | _ => false

/-- The call has stored `local_fin_sent`, and its FIN is not in the channel yet. -/
def CallPc.owesFin : CallPc H → Bool
  | .writeSend _ fin => fin
  | _ => false

/-- The next operation respects a FIN that is announced (sent, or `local_fin_sent`
is stored) and one that is out (sent). -/
def CallPc.respectsFin (announced out : Bool) : CallPc H → Bool
  | .replySend _ fin => if fin then !announced else !out
  | .writeStoreFin _ | .shutdownSend => !announced
  | .writeSend _ fin => fin || !out
  | .pollSend _ => !out
  | _ => true

/-- The channel takes nothing from the next operation: it is closed, or full for a
`try_send`. -/
def CallPc.barred (alt : Bool) (c : Channel H) : CallPc H → Bool
  | .pollSend _ | .shutdownSend => !c.admits alt
  | _ => !c.isOpen

/-- Where it takes a frame, the operation is not barred. -/
theorem unbarred_of_sent {alt : Bool} {pc : CallPc H} {st : Stream H} {c : Channel H}
    {out : CallOutcome H} (h : callStep alt pc st c = some out) {f : Frame H}
    (hf : .enqueued f ∈ out.effects) : pc.barred alt c = false := by
  have hopen := ((callStep_keeps h).sent f hf).2
  cases pc with
  | pollSend _ | shutdownSend =>
      cases h
      rw [CallPc.barred, tryThen_admits hf]
      rfl
  | _ => exact congrArg (! ·) hopen

/-- What one operation of a call does about the FIN of its stream. -/
inductive FinStep (pc : CallPc H) (st : Stream H) (c : Channel H) (out : CallOutcome H) : Prop where
  /-- nothing -/
  | idle (notices : ∀ f, .enqueued f ∈ out.effects → isNotice f = true)
      (flag : out.stream.localFinSent = st.localFinSent)
      (stores : out.pc.owesStore = pc.owesStore) (fins : out.pc.owesFin = pc.owesFin)
  /-- the receiver of the channel is gone -/
  | closed (isOpen : c.isOpen = false) (effects : out.effects = [])
      (flag : out.stream.localFinSent = st.localFinSent)
      (stores : pc.owesStore = false ∧ out.pc.owesStore = false) (fins : out.pc.owesFin = false)
  /-- a store before the send -/
  | claim (barred : ∀ alt, pc.barred alt c = !c.isOpen)
      (respects : ∀ announced out, pc.respectsFin announced out = !announced)
      (effects : out.effects = []) (flag : out.stream.localFinSent = true)
      (stores : pc.owesStore = false ∧ out.pc.owesStore = false)
      (fins : pc.owesFin = false ∧ out.pc.owesFin = true)
  /-- a store after the send -/
  | settle (effects : out.effects = []) (flag : out.stream.localFinSent = true)
      (stores : pc.owesStore = true ∧ out.pc.owesStore = false)
      (fins : pc.owesFin = false ∧ out.pc.owesFin = false)
  /-- a send after the store -/
  | redeem (f : Frame H) (isOpen : c.isOpen = true) (isFin : carriesFin f = true)
      (isResponse : isResponse f = true) (effects : out.effects = [.enqueued f])
      (target : f.target = st.streamId) (flag : out.stream.localFinSent = st.localFinSent)
      (stores : pc.owesStore = false ∧ out.pc.owesStore = false)
      (fins : pc.owesFin = true ∧ out.pc.owesFin = false)
  /-- a send of a FIN before the store -/
  | fin (f : Frame H) (isOpen : c.isOpen = true) (isFin : carriesFin f = true)
      (isResponse : isResponse f = true) (effects : out.effects = [.enqueued f])
      (target : f.target = st.streamId) (flag : out.stream.localFinSent = st.localFinSent)
      (respects : ∀ announced out, pc.respectsFin announced out = !announced)
      (stores : pc.owesStore = false ∧ out.pc.owesStore = true)
      (fins : pc.owesFin = false ∧ out.pc.owesFin = false)
  /-- a send without FIN -/
  | plain (f : Frame H) (isOpen : c.isOpen = true) (notFin : carriesFin f = false)
      (isResponse : isResponse f = true) (effects : out.effects = [.enqueued f])
      (target : f.target = st.streamId) (flag : out.stream.localFinSent = st.localFinSent)
      (respects : ∀ announced out, pc.respectsFin announced out = !out)
      (stores : pc.owesStore = false ∧ out.pc.owesStore = false)
      (fins : pc.owesFin = false ∧ out.pc.owesFin = false)

theorem replyFrame_carriesFin (st : Stream H) (headers : H) (fin : Bool) :
    carriesFin (replyFrame st headers fin) = fin := by
  cases fin with
  | true => simp [replyFrame, carriesFin, flagFin]
  | false => simp [replyFrame, carriesFin]

theorem dataFrame_carriesFin (st : Stream H) (data : Bytes) (fin : Bool) :
    carriesFin (dataFrame st data fin) = fin := by
  cases fin with
  | true => simp [dataFrame, carriesFin, dataFlagFin]
  | false => simp [dataFrame, carriesFin]

theorem callStep_fin {alt : Bool} {pc : CallPc H} {st : Stream H} {c : Channel H}
    {out : CallOutcome H} (h : callStep alt pc st c = some out) : FinStep pc st c out := by
  cases call_step h with
  | replySend headers fin send =>
      rcases sendThen_cases send with ⟨hclosed, rfl⟩ | ⟨hopen, heffects, hstream, hpc⟩
      · exact .closed hclosed rfl rfl ⟨rfl, rfl⟩ rfl
      · have hfin := replyFrame_carriesFin st headers fin
        cases fin with
        | true =>
            exact .fin _ hopen hfin rfl heffects rfl (by rw [hstream]) (fun _ _ => rfl)
              ⟨rfl, by rw [hpc]; rfl⟩ ⟨rfl, by rw [hpc]; rfl⟩
        | false =>
            exact .plain _ hopen hfin rfl heffects rfl (by rw [hstream]) (fun _ _ => rfl)
              ⟨rfl, by rw [hpc]; rfl⟩ ⟨rfl, by rw [hpc]; rfl⟩
  | writeSend data fin send =>
      rcases sendThen_cases send with ⟨hclosed, rfl⟩ | ⟨hopen, heffects, hstream, hpc⟩
      · exact .closed hclosed rfl rfl ⟨rfl, rfl⟩ rfl
      · have hfin := dataFrame_carriesFin st data fin
        cases fin with
        | true =>
            exact .redeem _ hopen hfin rfl heffects rfl (by rw [hstream])
              ⟨rfl, by rw [hpc]; rfl⟩ ⟨rfl, by rw [hpc]; rfl⟩
        | false =>
            exact .plain _ hopen hfin rfl heffects rfl (by rw [hstream]) (fun _ _ => rfl)
              ⟨rfl, by rw [hpc]; rfl⟩ ⟨rfl, by rw [hpc]; rfl⟩
  | resetSend status send =>
      rcases sendThen_cases send with ⟨hclosed, rfl⟩ | ⟨hopen, heffects, hstream, hpc⟩
      · exact .closed hclosed rfl rfl ⟨rfl, rfl⟩ rfl
      · refine .idle (fun f hf => ?_) (by rw [hstream]) (by rw [hpc]; rfl) (by rw [hpc]; rfl)
        rw [heffects] at hf
        cases List.mem_singleton.mp hf
        rfl
  | pollSend buf =>
      rcases tryThen_cases alt c st (dataFrame st buf false) (.returned (.written buf.length)) with
        ⟨r, hr⟩ | ⟨hopen, heffects, hstream, hpc⟩
      · rw [hr]
        exact .idle (by simp) rfl rfl rfl
      · exact .plain _ hopen (dataFrame_carriesFin st buf false) rfl heffects rfl
          (by rw [hstream]) (fun _ _ => rfl) ⟨rfl, by rw [hpc]; rfl⟩ ⟨rfl, by rw [hpc]; rfl⟩
  | shutdownSend =>
      rcases tryThen_cases alt c st (dataFrame st [] true) .shutdownStore with
        ⟨r, hr⟩ | ⟨hopen, heffects, hstream, hpc⟩
      · rw [hr]
        exact .idle (by simp) rfl rfl rfl
      · exact .fin _ hopen (dataFrame_carriesFin st [] true) rfl heffects rfl
          (by rw [hstream]) (fun _ _ => rfl) ⟨rfl, by rw [hpc]; rfl⟩ ⟨rfl, by rw [hpc]; rfl⟩
  | storesFin | shutdownStores => exact .settle rfl rfl ⟨rfl, rfl⟩ ⟨rfl, rfl⟩
  | claimsFin _ => exact .claim (fun _ => rfl) (fun _ _ => rfl) rfl rfl ⟨rfl, rfl⟩ ⟨rfl, rfl⟩
  | tryTakes _ _ _ | selectTakes _ _ _ _ | drainTakes _ _ _ =>
      exact .idle (by simp [receive]) rfl rfl rfl
  | borrowEnds _ | drainEnds _ => exact .idle (by simp [readReturn]) rfl rfl rfl
  | _ => exact .idle (by simp) rfl rfl rfl

/-- A call that is dropped leaves the flag, and owes nothing any more. -/
theorem callCancel_fin {pc pc' : CallPc H} {st st' : Stream H}
    (h : callCancel pc st = some (pc', st')) :
    st'.localFinSent = st.localFinSent ∧ pc'.owesStore = pc.owesStore ∧ pc'.owesFin = false := by
  cases pc with
  | replySend _ _ | writeSend _ _ | writeWait _ _ _ | resetSend _ | readLock | readSelect =>
      cases h
      exact ⟨rfl, rfl, rfl⟩
  | _ => cases h

theorem entry_owes (r : Request H) : r.entry.owesStore = false ∧ r.entry.owesFin = false := by
  cases r with
  | _ => exact ⟨rfl, rfl⟩

/-! ## The FIN is the last response -/

/-- At most one frame of a stream has the FIN flag, and no reply or DATA frame is
behind it. -/
structure FinOnce (sent : List (Frame H)) : Prop where
  once : (sent.filter carriesFin).length ≤ 1
  last : sent.Pairwise fun f g => carriesFin f = true → isResponse g = false

/-- What holds of the frames `sent` on a stream, of its flag, and of the numbers
of calls that owe a store and that owe a FIN.  The FIN is behind all responses,
and while the channel is open the flag and the calls tell whether it was sent. -/
structure FinKept (sent : List (Frame H)) (isOpen flag : Bool) (stores fins : Nat) : Prop where
  responses : ∀ f ∈ sent, carriesFin f = true → isResponse f = true
  last : sent.Pairwise fun f g => carriesFin f = true → isResponse g = false
  out : isOpen = true → (∃ f ∈ sent, carriesFin f = true) → 0 < stores ∨ flag = true ∧ fins = 0
  due : isOpen = true → 0 < fins → flag = true ∧ stores = 0 ∧ fins = 1

namespace FinKept

variable {sent : List (Frame H)} {isOpen flag : Bool} {stores fins : Nat}

theorem finOnce (h : FinKept sent isOpen flag stores fins) : FinOnce sent := by
  refine ⟨?_, h.last⟩
  have hpair := h.last.filter carriesFin
  cases hfilter : sent.filter carriesFin with
  | nil => exact Nat.zero_le _
  | cons f rest =>
      cases rest with
      | nil => exact Nat.le_refl _
      | cons g rest =>
          have hmem : ∀ x ∈ f :: g :: rest, x ∈ sent ∧ carriesFin x = true := fun x hx => by
            rw [← hfilter] at hx
            exact List.mem_filter.mp hx
          obtain ⟨-, hf⟩ := hmem f (by simp)
          obtain ⟨hg, hgfin⟩ := hmem g (by simp)
          rw [hfilter] at hpair
          have hnot := List.rel_of_pairwise_cons hpair (List.mem_cons_self) hf
          rw [h.responses g hg hgfin] at hnot
          cases hnot

/-- The channel closes. -/
theorem shut (h : FinKept sent isOpen flag stores fins) (flag' : Bool) (stores' fins' : Nat) :
    FinKept sent false flag' stores' fins' :=
  ⟨h.responses, h.last, fun hopen => absurd hopen Bool.false_ne_true,
    fun hopen => absurd hopen Bool.false_ne_true⟩

/-- Notices are sent. -/
theorem notices (h : FinKept sent isOpen flag stores fins) {fs : List (Frame H)}
    (hfs : ∀ f ∈ fs, isNotice f = true) : FinKept (sent ++ fs) isOpen flag stores fins := by
  have hplain : ∀ f ∈ fs, isResponse f = false ∧ carriesFin f = false :=
    fun f hf => notice_plain (hfs f hf)
  refine ⟨fun f hf hfin => ?_, List.pairwise_append.mpr ⟨h.last, ?_, ?_⟩, fun ho => ?_, h.due⟩
  · rcases List.mem_append.mp hf with hf | hf
    · exact h.responses f hf hfin
    · rw [(hplain f hf).2] at hfin
      cases hfin
  · exact List.pairwise_of_forall_mem_list fun f hf g hg _ => (hplain g hg).1
  · exact fun f _ g hg _ => (hplain g hg).1
  · rintro ⟨f, hf, hfin⟩
    rcases List.mem_append.mp hf with hf | hf
    · exact h.out ho ⟨f, hf, hfin⟩
    · rw [(hplain f hf).2] at hfin
      cases hfin

/-- A response is sent while the FIN is not out. -/
theorem respond (h : FinKept sent isOpen flag stores fins) (ho : isOpen = true) {f : Frame H}
    (hf : isResponse f = true) (hout : ¬ (0 < stores ∨ flag = true ∧ fins = 0))
    {flag' : Bool} {stores' fins' : Nat}
    (out' : carriesFin f = true → 0 < stores' ∨ flag' = true ∧ fins' = 0)
    (due' : 0 < fins' → flag' = true ∧ stores' = 0 ∧ fins' = 1) :
    FinKept (sent ++ [f]) isOpen flag' stores' fins' := by
  have hnone : ∀ g ∈ sent, carriesFin g = false := fun g hg =>
    eq_false_of_ne_true fun hfin => hout (h.out ho ⟨g, hg, hfin⟩)
  refine ⟨fun g hg hfin => ?_, List.pairwise_append.mpr ⟨h.last, List.pairwise_singleton _ _, ?_⟩,
    fun _ => ?_, fun _ => due'⟩
  · rcases List.mem_append.mp hg with hg | hg
    · exact h.responses g hg hfin
    · rw [List.mem_singleton.mp hg]
      exact hf
  · intro g hg _ _ hfin
    rw [hnone g hg] at hfin
    cases hfin
  · rintro ⟨g, hg, hfin⟩
    rcases List.mem_append.mp hg with hg | hg
    · rw [hnone g hg] at hfin
      cases hfin
    · rw [List.mem_singleton.mp hg] at hfin
      exact out' hfin

/-- The flag is stored before the send. -/
theorem claim (h : FinKept sent isOpen flag stores fins)
    (hnot : isOpen = true → flag = false ∧ stores = 0) :
    FinKept sent isOpen true stores (fins + 1) := by
  refine ⟨h.responses, h.last, fun ho hout => ?_, fun ho _ => ?_⟩
  · obtain ⟨hflag, hstores⟩ := hnot ho
    rcases h.out ho hout with hpos | ⟨hset, -⟩
    · omega
    · rw [hflag] at hset
      cases hset
  · obtain ⟨hflag, hstores⟩ := hnot ho
    have hfins : fins = 0 := Nat.eq_zero_of_not_pos fun hpos => by
      have hset := (h.due ho hpos).1
      rw [hflag] at hset
      cases hset
    exact ⟨rfl, hstores, by rw [hfins]⟩

/-- The flag is stored after the send. -/
theorem settle (h : FinKept sent isOpen flag (stores + 1) fins) :
    FinKept sent isOpen true stores fins := by
  have hfins : isOpen = true → fins = 0 := fun ho => Nat.eq_zero_of_not_pos fun hpos => by
    have hstores := (h.due ho hpos).2.1
    cases hstores
  refine ⟨h.responses, h.last, fun ho _ => .inr ⟨rfl, hfins ho⟩, fun ho hpos => ?_⟩
  rw [hfins ho] at hpos
  cases hpos

/-- A call that owed its FIN is dropped. -/
theorem drop (h : FinKept sent isOpen flag stores (fins + 1)) :
    FinKept sent isOpen flag stores fins := by
  refine ⟨h.responses, h.last, fun ho hout => ?_, fun ho hpos => ?_⟩
  · rcases h.out ho hout with hstores | ⟨-, hfins⟩
    · exact .inl hstores
    · cases hfins
  · have hone := (h.due ho (Nat.succ_pos _)).2.2
    omega

end FinKept

/-! ## Steps -/

/-- The number of calls on stream `o` whose counter has the property `p`. -/
def owing (p : CallPc H → Bool) (o : Nat) (calls : List (Call H)) : Nat :=
  calls.countP fun c => decide (c.stream = o) && p c.pc

theorem owing_set {calls : List (Call H)} {j : Nat} {c : Call H} (hc : calls[j]? = some c)
    (p : CallPc H → Bool) (o : Nat) (pc : CallPc H) :
    owing p o (calls.set j { c with pc := pc }) + (decide (c.stream = o) && p c.pc).toNat =
      owing p o calls + (decide (c.stream = o) && p pc).toNat := by
  obtain ⟨hj, rfl⟩ := List.getElem?_eq_some_iff.mp hc
  have hpos : (decide (calls[j].stream = o) && p calls[j].pc) = true → 0 < owing p o calls :=
    fun h => List.countP_pos_iff.mpr ⟨calls[j], List.getElem_mem hj, h⟩
  have hset := List.countP_set (p := fun c => decide (c.stream = o) && p c.pc)
    (a := { calls[j] with pc := pc }) hj
  simp only [owing] at hpos ⊢
  rw [hset]
  cases hold : decide (calls[j].stream = o) && p calls[j].pc with
  | true =>
      have := hpos hold
      cases decide (calls[j].stream = o) && p pc with
      | true => simp; omega
      | false => simp; omega
  | false =>
      cases decide (calls[j].stream = o) && p pc with
      | true => simp
      | false => simp

/-- Another stream owes what it owed. -/
theorem owing_set_other {calls : List (Call H)} {j o : Nat} {c : Call H}
    (hc : calls[j]? = some c) (ho : c.stream ≠ o) (p : CallPc H → Bool) (pc : CallPc H) :
    owing p o (calls.set j { c with pc := pc }) = owing p o calls := by
  simpa [ho] using owing_set hc p o pc

/-- A FIN of stream `o` is sent, or `local_fin_sent` is stored. -/
def State.finAnnounced (o : Nat) (s : State H) : Bool :=
  s.finFlag o || decide (0 < owing CallPc.owesStore o s.calls)

/-- A FIN of stream `o` is sent: a call has still to store that, or the flag is set
and no call has still to send it. -/
def State.finOut (o : Nat) (s : State H) : Bool :=
  decide (0 < owing CallPc.owesStore o s.calls) ||
    (s.finFlag o && decide (owing CallPc.owesFin o s.calls = 0))

theorem finOut_iff {o : Nat} {s : State H} : s.finOut o = true ↔
    0 < owing CallPc.owesStore o s.calls ∨
      s.finFlag o = true ∧ owing CallPc.owesFin o s.calls = 0 := by
  simp [State.finOut]

/-- The next operation of a call on stream `o` respects the FIN, or the channel takes
nothing from it. -/
def State.finRespected (o : Nat) (s : State H) : Action H → Bool
  | .call j alt =>
      match s.calls[j]? with
      | none => true
      | some c => decide (c.stream ≠ o) || c.pc.barred alt s.writeChannel ||
          c.pc.respectsFin (s.finAnnounced o) (s.finOut o)
  | _ => true

/-- The condition under which stream `o` has one FIN, and nothing behind it. -/
def FinRespected (o : Nat) (_ : List (Event H)) (s : State H) (a : Action H) : Prop :=
  s.finRespected o a = true

instance (o : Nat) (evs : List (Event H)) (s : State H) (a : Action H) :
    Decidable (FinRespected o evs s a) := inferInstanceAs (Decidable (_ = true))

/-- `FinKept` of stream `o` with the frames `sent`. -/
def State.finKept (o : Nat) (sent : List (Frame H)) (s : State H) : Prop :=
  FinKept sent s.writeChannel.isOpen (s.finFlag o) (owing CallPc.owesStore o s.calls)
    (owing CallPc.owesFin o s.calls)

variable {guard : List (Event H) → State H → Action H → Prop} {evs : List (Event H)} {s : State H}

theorem finFlag_set {s s' : State H} {o : Nat} {st st' : Stream H} (hst : s.objs[o]? = some st)
    (hobjs : s'.objs = s.objs.set o st') : s'.finFlag o = st'.localFinSent := by
  obtain ⟨ho, -⟩ := List.getElem?_eq_some_iff.mp hst
  refine finFlag_of_get ?_
  rw [hobjs, List.getElem?_set_self ho]

theorem finFlag_set_other {s s' : State H} {o i : Nat} {st' : Stream H} (hi : i ≠ o)
    (hobjs : s'.objs = s.objs.set i st') : s'.finFlag o = s.finFlag o := by
  rw [State.finFlag, State.finFlag, hobjs, List.getElem?_set_ne hi]

/-- What a call sends with id `k`. -/
theorem sentOn_call {k : UInt32} {j i : Nat} {effects : List (CallEffect H)} {f : Frame H}
    (h : effects = [.enqueued f]) :
    (effects.map (callEvent j i)).flatMap (Event.sentOn k) = if f.target = k then [f] else [] := by
  rw [h]
  exact List.append_nil _

/-- A call on the stream goes on. -/
theorem finKept_call {k : UInt32} {j : Nat} {alt : Bool} {c : Call H} {st : Stream H}
    {out : CallOutcome H} {sent : List (Frame H)} (hkept : s.finKept c.stream sent)
    (hget : s.calls[j]? = some c) (hst : s.objs[c.stream]? = some st) (hk : st.streamId = k)
    (hguard : s.finRespected c.stream (.call j alt) = true)
    (hout : callStep alt c.pc st s.writeChannel = some out) {s' : State H}
    (hs' : s' = { s with
      calls := s.calls.set j { c with pc := out.pc }
      objs := s.objs.set c.stream out.stream
      writeChannel := out.channel }) :
    s'.finKept c.stream
      (sent ++ (out.effects.map (callEvent j c.stream)).flatMap (Event.sentOn k)) := by
  have hflag : s'.finFlag c.stream = out.stream.localFinSent := finFlag_set hst (by rw [hs'])
  have hflag₀ := finFlag_of_get hst
  have hstores := owing_set hget CallPc.owesStore c.stream out.pc
  have hfins := owing_set hget CallPc.owesFin c.stream out.pc
  have hopen : s'.writeChannel.isOpen = s.writeChannel.isOpen := by
    rw [hs']
    exact (callStep_keeps hout).channel
  have hcalls : s'.calls = s.calls.set j { c with pc := out.pc } := by rw [hs']
  have hrespects : c.pc.barred alt s.writeChannel = false →
      c.pc.respectsFin (s.finAnnounced c.stream) (s.finOut c.stream) = true := by
    intro hbarred
    simpa [State.finRespected, hget, hbarred] using hguard
  simp only [decide_true, Bool.true_and] at hstores hfins
  rw [State.finKept, hopen, hflag, hcalls]
  cases callStep_fin hout with
  | idle notices flag stores fins =>
      rw [stores, Nat.add_right_cancel_iff] at hstores
      rw [fins, Nat.add_right_cancel_iff] at hfins
      rw [flag, ← hflag₀, hstores, hfins]
      refine hkept.notices fun f hf => ?_
      obtain ⟨-, src, he⟩ := mem_sentOn.mp hf
      obtain ⟨eff, heff, heq⟩ := List.mem_map.mp he
      cases eff with
      | enqueued g =>
          cases heq
          exact notices f heff
      | delivered d => cases heq
  | closed isOpen effects flag stores fins =>
      rw [effects, isOpen]
      simpa using hkept.shut _ _ _
  | claim barred respects effects flag stores fins =>
      have ha : owing CallPc.owesStore c.stream (s.calls.set j { c with pc := out.pc }) =
          owing CallPc.owesStore c.stream s.calls := by simpa [stores] using hstores
      have hb : owing CallPc.owesFin c.stream (s.calls.set j { c with pc := out.pc }) =
          owing CallPc.owesFin c.stream s.calls + 1 := by simpa [fins] using hfins
      rw [effects, flag, ha, hb, List.map_nil, List.flatMap_nil, List.append_nil]
      refine hkept.claim fun ho => ?_
      simpa [respects, State.finAnnounced] using hrespects (by rw [barred, ho]; rfl)
  | settle effects flag stores fins =>
      have ha : owing CallPc.owesStore c.stream s.calls =
          owing CallPc.owesStore c.stream (s.calls.set j { c with pc := out.pc }) + 1 := by
        simpa [stores] using hstores.symm
      have hb : owing CallPc.owesFin c.stream (s.calls.set j { c with pc := out.pc }) =
          owing CallPc.owesFin c.stream s.calls := by simpa [fins] using hfins
      rw [State.finKept, ha] at hkept
      rw [effects, flag, hb, List.map_nil, List.flatMap_nil, List.append_nil]
      exact hkept.settle
  | redeem f isOpen isFin isResponse effects target flag stores fins =>
      have hb : owing CallPc.owesFin c.stream s.calls =
          owing CallPc.owesFin c.stream (s.calls.set j { c with pc := out.pc }) + 1 := by
        simpa [fins] using hfins.symm
      obtain ⟨hset, hnone, hone⟩ := hkept.due isOpen (by omega)
      rw [sentOn_call effects, if_pos (target.trans hk)]
      refine hkept.respond isOpen isResponse (by omega) (fun _ => .inr ⟨?_, by omega⟩) (by omega)
      rw [flag, ← hflag₀, hset]
  | fin f isOpen isFin isResponse effects target flag respects stores fins =>
      have ha : owing CallPc.owesStore c.stream (s.calls.set j { c with pc := out.pc }) =
          owing CallPc.owesStore c.stream s.calls + 1 := by simpa [stores] using hstores
      have hb : owing CallPc.owesFin c.stream (s.calls.set j { c with pc := out.pc }) =
          owing CallPc.owesFin c.stream s.calls := by simpa [fins] using hfins
      have hnot : s.finFlag c.stream = false ∧ owing CallPc.owesStore c.stream s.calls = 0 := by
        simpa [respects, State.finAnnounced] using
          hrespects (unbarred_of_sent hout (effects ▸ List.mem_singleton.mpr rfl))
      rw [sentOn_call effects, if_pos (target.trans hk)]
      refine hkept.respond isOpen isResponse ?_ (fun _ => .inl (by omega)) fun hpos => ?_
      · rw [hnot.1, hnot.2]
        simp
      · have hset := (hkept.due isOpen (hb ▸ hpos)).1
        rw [hnot.1] at hset
        cases hset
  | plain f isOpen notFin isResponse effects target flag respects stores fins =>
      have ha : owing CallPc.owesStore c.stream (s.calls.set j { c with pc := out.pc }) =
          owing CallPc.owesStore c.stream s.calls := by simpa [stores] using hstores
      have hb : owing CallPc.owesFin c.stream (s.calls.set j { c with pc := out.pc }) =
          owing CallPc.owesFin c.stream s.calls := by simpa [fins] using hfins
      have hfree := hrespects (unbarred_of_sent hout (effects ▸ List.mem_singleton.mpr rfl))
      rw [respects, Bool.not_eq_true'] at hfree
      rw [sentOn_call effects, if_pos (target.trans hk), flag, ← hflag₀, ha, hb]
      refine hkept.respond isOpen isResponse (fun h => ?_) (fun h => ?_) (hkept.due isOpen)
      · rw [finOut_iff.mpr h] at hfree
        cases hfree
      · rw [notFin] at h
        cases h

/-- A call on another stream goes on. -/
theorem finKept_call_other {o : Nat} {k : UInt32} {j : Nat} {alt : Bool} {c : Call H}
    {st : Stream H} {out : CallOutcome H} {sent : List (Frame H)} (hkept : s.finKept o sent)
    (hget : s.calls[j]? = some c) (ho : c.stream ≠ o) (hk : st.streamId ≠ k)
    (hout : callStep alt c.pc st s.writeChannel = some out) {s' : State H}
    (hs' : s' = { s with
      calls := s.calls.set j { c with pc := out.pc }
      objs := s.objs.set c.stream out.stream
      writeChannel := out.channel }) :
    s'.finKept o (sent ++ (out.effects.map (callEvent j c.stream)).flatMap (Event.sentOn k)) := by
  have hflag : s'.finFlag o = s.finFlag o := finFlag_set_other ho (by rw [hs'])
  have hopen : s'.writeChannel.isOpen = s.writeChannel.isOpen := by
    rw [hs']
    exact (callStep_keeps hout).channel
  have hcalls : s'.calls = s.calls.set j { c with pc := out.pc } := by rw [hs']
  have hnone : (out.effects.map (callEvent j c.stream)).flatMap (Event.sentOn k) = [] := by
    refine List.flatMap_eq_nil_iff.mpr fun e he => ?_
    obtain ⟨eff, heff, rfl⟩ := List.mem_map.mp he
    cases eff with
    | delivered d => rfl
    | enqueued f =>
        have htarget := sends_target ((callStep_keeps hout).sent f heff).1
        exact if_neg fun h => hk (htarget.symm.trans h)
  rw [State.finKept, hopen, hflag, hcalls, hnone, List.append_nil, owing_set_other hget ho,
    owing_set_other hget ho]
  exact hkept

theorem fin_step (hrun : (connection H).Run guard evs s) {s' : State H} {a : Action H}
    {es : List (Event H)} (hguard : guard evs s a) (hs : s.step a = some (s', es)) {o : Nat}
    {k : UInt32} (hk : s'.ids[o]? = some k) (hrespected : s.finRespected o a = true)
    (hkept : s.finKept o (evs.flatMap (Event.sentOn k))) :
    s'.finKept o ((evs ++ es).flatMap (Event.sentOn k)) := by
  rw [List.flatMap_append]
  cases calls_step hrun hs with
  | call j alt c st out action get obj outcome state events =>
      have hid := ids_grow hs (ids_of_get obj)
      rw [events]
      by_cases ho : c.stream = o
      · subst ho
        rw [hid] at hk
        rw [action] at hrespected
        exact finKept_call hkept get obj (Option.some.inj hk) hrespected outcome state
      · refine finKept_call_other hkept get ho (fun heq => ho ?_) outcome state
        rw [heq] at hid
        exact (registry_run (hrun.step hguard hs)).unique hid hk
  | cancel j c st st' pc get obj outcome state events =>
      obtain ⟨hflag, hstores, hfins⟩ := callCancel_fin outcome
      have hsame : s'.finFlag o = s.finFlag o :=
        finFlag_congr (by rw [state]; exact map_set_eq obj hflag) o
      have hopen : s'.writeChannel = s.writeChannel := by rw [state]
      have hcalls : s'.calls = s.calls.set j { c with pc := pc } := by rw [state]
      rw [State.finKept, hsame, hopen, hcalls, events, List.flatMap_nil, List.append_nil]
      have ha := owing_set get CallPc.owesStore o pc
      have hb := owing_set get CallPc.owesFin o pc
      rw [hstores, Nat.add_right_cancel_iff] at ha
      rw [hfins, Bool.and_false, Bool.toNat_false, Nat.add_zero] at hb
      rw [ha]
      cases howes : decide (c.stream = o) && c.pc.owesFin with
      | false =>
          rw [howes, Bool.toNat_false, Nat.add_zero] at hb
          rw [hb]
          exact hkept
      | true =>
          rw [howes] at hb
          rw [State.finKept, ← hb] at hkept
          exact hkept.drop
  | invoke i r mem state events =>
      obtain ⟨hstores, hfins⟩ := entry_owes r
      have hnone : ∀ p : CallPc H → Bool, p r.entry = false →
          owing p o s'.calls = owing p o s.calls := fun p hp => by
        rw [state]
        simp [owing, List.countP_append, hp]
      rw [State.finKept, hnone _ hstores, hnone _ hfins, events, state]
      exact hkept.notices (by simp [Event.sentOn])
  | other calls flag sent invoked =>
      have hnotices : ∀ f ∈ es.flatMap (Event.sentOn k), isNotice f = true := by
        intro f hf
        obtain ⟨-, src, he⟩ := mem_sentOn.mp hf
        exact (sent src f he).2
      rw [State.finKept, flag, calls]
      cases hopen : s'.writeChannel.isOpen with
      | false => exact (hkept.notices hnotices).shut _ _ _
      | true =>
          have hbefore := channel_step hs hopen
          rw [State.finKept, hbefore] at hkept
          exact hkept.notices hnotices

/-- A stream begins with no FIN. -/
theorem finKept_new (hrun : (connection H).Run guard evs s) {o : Nat} {k : UInt32}
    (hnone : s.ids[o]? = none) (hk : k ∉ s.ids) :
    s.finKept o (evs.flatMap (Event.sentOn k)) := by
  have howing : ∀ p : CallPc H → Bool, owing p o s.calls = 0 := by
    intro p
    refine List.countP_eq_zero.mpr fun c hc => ?_
    obtain ⟨j, hj⟩ := List.getElem?_of_mem hc
    obtain ⟨k', hk'⟩ := call_id hrun hj
    have ho : c.stream ≠ o := fun ho => by
      rw [ho, hnone] at hk'
      cases hk'
    simp [ho]
  have hempty : FinKept (H := H) [] s.writeChannel.isOpen (s.finFlag o) 0 0 :=
    ⟨by simp, List.Pairwise.nil, by simp, by simp⟩
  rw [State.finKept, howing, howing]
  refine hempty.notices fun f hf => ?_
  rcases sentOn_id hrun hf with hnotice | hmem
  · exact hnotice
  · exact absurd hmem hk

theorem fin_kept {o : Nat} {k : UInt32} (h : (connection H).Run (FinRespected o) evs s)
    (hk : s.ids[o]? = some k) : s.finKept o (evs.flatMap (Event.sentOn k)) := by
  refine h.invariant (I := fun evs s => s.ids[o]? = some k →
    s.finKept o (evs.flatMap (Event.sentOn k))) ?_ ?_ hk
  · intro hk
    cases hk
  · intro evs es s s' a hrun hguard hs ih hk
    refine fin_step hrun hguard hs hk hguard ?_
    cases hid : s.ids[o]? with
    | some k' =>
        have heq := ids_grow hs hid
        rw [hk] at heq
        cases heq
        exact ih hid
    | none =>
        refine finKept_new hrun hid fun hmem => ?_
        obtain ⟨i, hi⟩ := List.getElem?_of_mem hmem
        cases (registry_run (hrun.step hguard hs)).unique (ids_grow hs hi) hk
        rw [hid] at hi
        cases hi

/-- **One FIN.**  If every call on a stream respects its FIN, then the write channel
accepts at most one FIN for the stream, and no reply or DATA frame after it. -/
theorem fin_once {o : Nat} {k : UInt32} (h : (connection H).Run (FinRespected o) evs s)
    (hk : s.ids[o]? = some k) : FinOnce (evs.flatMap (Event.sentOn k)) :=
  (fin_kept h hk).finOnce

/-- A handler replies, and then ends the stream with a payload. -/
theorem fin_once_replyAndData : ∃ evs s, (connection Unit).Run (FinRespected 0) evs s ∧
    (evs.flatMap (Event.sentOn 1)).length = 2 ∧ FinOnce (evs.flatMap (Event.sentOn 1)) := by
  obtain ⟨evs, s, h, hcheck⟩ := Machine.exists_run_of_exec (connection Unit) (FinRespected 0)
    (registers (plainSyn 1 0) ++ applies (.synStream (plainSyn 1 0)) ++
      Action.invoke 0 (.sendReply () false) :: calls 0 3 ++
      Action.invoke 0 (.writeData [1] true) :: calls 1 4)
    (fun evs s => decide (s.ids[0]? = some 1 ∧
      (evs.flatMap (Event.sentOn 1)).length = 2))
    (by decide +kernel)
  obtain ⟨hid, hlength⟩ := of_decide_eq_true hcheck
  exact ⟨evs, s, h, hlength, fin_once h hid⟩

/-- A second `send_reply` with FIN does not look at the flag that the first has
set. -/
theorem fin_twice : ¬ ∀ evs (s : State Unit) (o : Nat) (k : UInt32),
    (connection Unit).Reached evs s →
    s.ids[o]? = some k → FinOnce (evs.flatMap (Event.sentOn k)) := by
  intro hall
  obtain ⟨evs, s, h, hcheck⟩ := Machine.exists_run_of_exec (connection Unit) Machine.free
    (registers (plainSyn 1 0) ++ applies (.synStream (plainSyn 1 0)) ++
      Action.invoke 0 (.sendReply () true) :: calls 0 4 ++
      Action.invoke 0 (.sendReply () true) :: calls 1 4)
    (fun evs s => decide (s.ids[0]? = some 1 ∧
      1 < ((evs.flatMap (Event.sentOn 1)).filter carriesFin).length))
    (by decide +kernel)
  obtain ⟨hid, hlength⟩ := of_decide_eq_true hcheck
  exact absurd (hall evs s 0 1 h hid).once (Nat.not_le.mpr hlength)

end SpdyStream.Session
