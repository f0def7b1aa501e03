/-
  Session/ReplyGate.lean --- DATA frames wait for the reply.

  `write_data` waits for `replied`, which `send_reply` stores behind its send.
  The gate has two holes: the worker stores `replied` for a SYN_REPLY of the peer,
  and `poll_write` and `poll_shutdown` do not look at it.
-/
import SpdyStream.Session.OneStream

set_option autoImplicit false

namespace SpdyStream.Session

open SpdyStream.Foundation
open SpdyStream.Framing

variable {H : Type}

/-! ## Calls and the gate -/

/-- The reply of the call is in the channel, and `replied` is not stored yet. -/
def CallPc.owesReplied : CallPc H → Bool
  | .replyStoreReplied _ => true
  | _ => false

/-- The call is a `write_data` that has found `replied` set. -/
def CallPc.pastWait : CallPc H → Bool
  | .writeCheckFin _ _ | .writeStoreFin _ | .writeSend _ _ => true
  | _ => false

/-- The next operation of the call sends DATA without a look at `replied`. -/
def CallPc.skipsWait : CallPc H → Bool
  | .pollSend _ | .shutdownSend => true
  | _ => false

/-- What one operation of a call does about the reply of its stream. -/
structure ReplyStep (alt : Bool) (pc : CallPc H) (st : Stream H) (c : Channel H)
    (out : CallOutcome H) : Prop where
  kept : st.replied = true → out.stream.replied = true
  stored : out.stream.replied = true → st.replied = true ∨ pc.owesReplied = true
  settled : pc.owesReplied = true → out.stream.replied = true
  sent : out.pc.owesReplied = true → ∃ sr, .enqueued (.synReply sr) ∈ out.effects
  passed : out.pc.pastWait = true → pc.pastWait = true ∨ st.replied = true
  data : ∀ df, .enqueued (.data df) ∈ out.effects →
    pc.pastWait = true ∨ pc.skipsWait = true ∧ c.admits alt = true

/-- An operation that leaves `replied`, sends no DATA and passes no wait. -/
theorem replyStep_idle {alt : Bool} {pc : CallPc H} {st : Stream H} {c : Channel H}
    {out : CallOutcome H} (hflag : out.stream.replied = st.replied)
    (howes : pc.owesReplied = false ∧ out.pc.owesReplied = false)
    (hpast : out.pc.pastWait = true → pc.pastWait = true ∨ st.replied = true)
    (hdata : ∀ df, .enqueued (.data df) ∉ out.effects) : ReplyStep alt pc st c out := by
  refine ⟨fun h => hflag.trans h, fun h => .inl (hflag.symm.trans h), fun h => ?_, fun h => ?_,
    hpast, fun df h => absurd h (hdata df)⟩
  · rw [howes.1] at h
    cases h
  · rw [howes.2] at h
    cases h

/-- An operation that leaves `replied`, sends no DATA and does not lead past the wait. -/
theorem replyStep_plain {alt : Bool} {pc : CallPc H} {st : Stream H} {c : Channel H}
    {out : CallOutcome H} (hflag : out.stream.replied = st.replied)
    (howes : pc.owesReplied = false ∧ out.pc.owesReplied = false)
    (hpast : out.pc.pastWait = false) (hdata : ∀ df, .enqueued (.data df) ∉ out.effects) :
    ReplyStep alt pc st c out := by
  refine replyStep_idle hflag howes (fun h => ?_) hdata
  rw [hpast] at h
  cases h

/-- A `try_send` of DATA. -/
theorem tryThen_reply {blocked : Bool} {c : Channel H} {st : Stream H} {pc next : CallPc H}
    {f : Frame H} (hskips : pc.skipsWait = true) (howes : pc.owesReplied = false)
    (hnext : next.owesReplied = false ∧ next.pastWait = false) :
    ReplyStep blocked pc st c (tryThen blocked c st f next) := by
  unfold tryThen
  split
  · exact replyStep_plain rfl ⟨howes, rfl⟩ rfl (by simp)
  · exact replyStep_plain rfl ⟨howes, rfl⟩ rfl (by simp)
  · rename_i hsent
    split
    · exact replyStep_plain rfl ⟨howes, rfl⟩ rfl (by simp)
    · rename_i hblocked
      refine ⟨id, .inl, fun h => ?_, fun h => ?_, fun h => ?_,
        fun _ _ => .inr ⟨hskips, admits_of_send hsent (eq_false_of_ne_true hblocked)⟩⟩
      · rw [howes] at h
        cases h
      · rw [hnext.1] at h
        cases h
      · rw [hnext.2] at h
        cases h

theorem callStep_reply {alt : Bool} {pc : CallPc H} {st : Stream H} {c : Channel H}
    {out : CallOutcome H} (h : callStep alt pc st c = some out) : ReplyStep alt pc st c out := by
  cases call_step h with
  | replySend headers fin send =>
      rcases sendThen_cases send with ⟨-, rfl⟩ | ⟨-, heffects, hstream, hpc⟩
      · exact replyStep_plain rfl ⟨rfl, rfl⟩ rfl (by simp)
      · refine ⟨fun h => by rw [hstream, h], fun h => .inl (by rw [← hstream, h]),
          fun howes => absurd howes Bool.false_ne_true, fun _ => ?_, fun h => ?_, fun df hdf => ?_⟩
        · rw [heffects]
          exact ⟨_, List.mem_singleton.mpr rfl⟩
        · rw [hpc] at h
          cases h
        · rw [heffects] at hdf
          cases List.mem_singleton.mp hdf
  | storesReplied _ =>
      exact ⟨fun _ => rfl, fun _ => .inr rfl, fun _ => rfl,
        fun howes => absurd howes Bool.false_ne_true, fun hpast => absurd hpast Bool.false_ne_true,
        by simp⟩
  | loadsReplied _ _ replied | reloadsReplied _ _ _ replied =>
      exact replyStep_idle rfl ⟨rfl, rfl⟩ (fun _ => .inr replied) (by simp)
  | checkFails _ _ _ | checkFin _ _ | checkPlain _ _ | claimsFin _ =>
      exact replyStep_idle rfl ⟨rfl, rfl⟩ (fun _ => .inl rfl) (by simp)
  | writeSend data fin send =>
      rcases sendThen_cases send with ⟨-, rfl⟩ | ⟨-, heffects, hstream, hpc⟩
      · exact replyStep_plain rfl ⟨rfl, rfl⟩ rfl (by simp)
      · refine ⟨fun h => by rw [hstream, h], fun h => .inl (by rw [← hstream, h]),
          fun howes => absurd howes Bool.false_ne_true, fun h => ?_, fun _ => .inl rfl,
          fun _ _ => .inl rfl⟩
        rw [hpc] at h
        cases h
  | pollSend _ | shutdownSend => exact tryThen_reply rfl rfl ⟨rfl, rfl⟩
  | resetSend _ send =>
      rcases sendThen_cases send with ⟨-, rfl⟩ | ⟨-, heffects, hstream, hpc⟩
      · exact replyStep_plain rfl ⟨rfl, rfl⟩ rfl (by simp)
      · exact replyStep_plain (by rw [hstream]) ⟨rfl, by rw [hpc]; rfl⟩ (by rw [hpc]; rfl)
          (by simp [heffects])
  | tryTakes _ _ _ | selectTakes _ _ _ _ | drainTakes _ _ _ =>
      exact replyStep_plain rfl ⟨rfl, rfl⟩ rfl (by simp [receive])
  | borrowEnds _ | drainEnds _ => exact replyStep_plain rfl ⟨rfl, rfl⟩ rfl (by simp [readReturn])
  | _ => exact replyStep_plain rfl ⟨rfl, rfl⟩ rfl (by simp)

theorem callCancel_reply {pc pc' : CallPc H} {st st' : Stream H}
    (h : callCancel pc st = some (pc', st')) :
    st'.replied = st.replied ∧ pc'.owesReplied = false ∧ pc'.pastWait = false := by
  cases pc with
  | replySend _ _ | writeSend _ _ | writeWait _ _ _ | resetSend _ | readLock | readSelect =>
      cases h
      exact ⟨rfl, rfl, rfl⟩
  | _ => cases h

theorem entry_reply (r : Request H) :
    r.entry.owesReplied = false ∧ r.entry.pastWait = false := by
  cases r with
  | _ => exact ⟨rfl, rfl⟩

/-! ## The reply is first -/

/-- Before every DATA frame there is a SYN_REPLY. -/
def DataAfterReply (sent : List (Frame H)) : Prop :=
  ∀ pre df post, sent = pre ++ .data df :: post → ∃ sr, .synReply sr ∈ pre

theorem DataAfterReply.append {sent fs : List (Frame H)} (h : DataAfterReply sent)
    (hfs : ∀ df, .data df ∈ fs → ∃ sr, .synReply sr ∈ sent) : DataAfterReply (sent ++ fs) := by
  intro pre df post heq
  rcases List.append_eq_append_iff.mp heq with ⟨mid, hpre, hrest⟩ | ⟨mid, hsent, hrest⟩
  · obtain ⟨sr, hsr⟩ := hfs df (by simp [hrest])
    exact ⟨sr, hpre ▸ List.mem_append_left _ hsr⟩
  · cases mid with
    | nil =>
        obtain ⟨sr, hsr⟩ := hfs df (by rw [← List.nil_append fs, ← hrest]; simp)
        rw [List.append_nil] at hsent
        exact ⟨sr, hsent ▸ hsr⟩
    | cons x mid =>
        obtain ⟨rfl, -⟩ := List.cons.inj hrest
        exact h pre df mid hsent

/-- `replied` of stream `o`. -/
def State.repliedFlag (o : Nat) (s : State H) : Bool :=
  match s.objs[o]? with
  | none => false
  | some st => st.replied

theorem repliedFlag_of_get {s : State H} {o : Nat} {st : Stream H} (h : s.objs[o]? = some st) :
    s.repliedFlag o = st.replied := by
  rw [State.repliedFlag, h]

/-- The reply of stream `o` is sent: `replied` is set, or a call has still to store
that. -/
def State.replyOut (o : Nat) (s : State H) : Bool :=
  s.repliedFlag o || s.anyCall o CallPc.owesReplied

theorem replyOut_iff {o : Nat} {s : State H} : s.replyOut o = true ↔
    s.repliedFlag o = true ∨ ∃ j pc, s.pcOf o j = some pc ∧ pc.owesReplied = true := by
  rw [State.replyOut, Bool.or_eq_true, anyCall_iff]

/-- The action does not open the gate of stream `o` before the reply, or go past
it. -/
def State.gateRespected (o : Nat) (s : State H) : Action H → Bool
  | .call j alt =>
      match s.pcOf o j with
      | none => true
      | some pc => !pc.skipsWait || !s.writeChannel.admits alt || s.replyOut o
  | .workerRun i =>
      match (s.workers i).todo with
      | .storeReplied :: _ =>
          decide ((s.workers i).stream ≠ o) || !s.writeChannel.isOpen || s.replyOut o
      | _ => true
  | _ => true

/-- The condition under which no DATA frame of stream `o` comes before the reply. -/
def GateRespected (o : Nat) (_ : List (Event H)) (s : State H) (a : Action H) : Prop :=
  s.gateRespected o a = true

instance (o : Nat) (evs : List (Event H)) (s : State H) (a : Action H) :
    Decidable (GateRespected o evs s a) := inferInstanceAs (Decidable (_ = true))

/-- What a stream keeps when its gate is respected: the frames `sent` on it are in
order, and whoever may send DATA knows that the reply is among them. -/
structure GateKept (o : Nat) (sent : List (Frame H)) (s : State H) : Prop where
  order : DataAfterReply sent
  reply : s.writeChannel.isOpen = true → s.replyOut o = true → ∃ sr, .synReply sr ∈ sent
  past : ∀ j pc, s.pcOf o j = some pc → pc.pastWait = true → s.repliedFlag o = true

theorem GateKept.congr {o : Nat} {sent fs : List (Frame H)} {s s' : State H}
    (h : GateKept o sent s) (hflag : s'.repliedFlag o = s.repliedFlag o)
    (hpcs : ∀ j pc, s'.pcOf o j = some pc →
      pc.owesReplied = true ∨ pc.pastWait = true → s.pcOf o j = some pc)
    (hopen : s'.writeChannel.isOpen = true → s.writeChannel.isOpen = true)
    (hfs : ∀ df, .data df ∉ fs) : GateKept o (sent ++ fs) s' := by
  refine ⟨h.order.append fun df hdf => absurd hdf (hfs df), fun ho hout => ?_,
    fun j pc hpc hp => ?_⟩
  · have hout' : s.replyOut o = true := by
      rcases replyOut_iff.mp hout with hset | ⟨j, pc, hpc, howes⟩
      · exact replyOut_iff.mpr (.inl (hflag ▸ hset))
      · exact replyOut_iff.mpr (.inr ⟨j, pc, hpcs j pc hpc (.inl howes), howes⟩)
    obtain ⟨sr, hsr⟩ := h.reply (hopen ho) hout'
    exact ⟨sr, List.mem_append_left _ hsr⟩
  · rw [hflag]
    exact h.past j pc (hpcs j pc hpc (.inr hp)) hp

variable {guard : List (Event H) → State H → Action H → Prop} {evs : List (Event H)} {s : State H}

/-- A call on the stream goes on. -/
theorem GateKept.call {o j : Nat} {k : UInt32} {alt : Bool} {pc : CallPc H} {st : Stream H}
    {out : CallOutcome H} {sent : List (Frame H)} {s' : State H} (h : GateKept o sent s)
    (hpc : s.pcOf o j = some pc) (hst : s.objs[o]? = some st) (hk : st.streamId = k)
    (hguard : s.gateRespected o (.call j alt) = true)
    (hout : callStep alt pc st s.writeChannel = some out) (hnow : s'.objs[o]? = some out.stream)
    (hpcs : ∀ i, s'.pcOf o i = if i = j then some out.pc else s.pcOf o i)
    (hopen : s'.writeChannel.isOpen = true → s.writeChannel.isOpen = true) :
    GateKept o (sent ++ (out.effects.map (callEvent j o)).flatMap (Event.sentOn k)) s' := by
  have hreply := callStep_reply hout
  have hflag := repliedFlag_of_get hst
  have hflag' := repliedFlag_of_get hnow
  refine ⟨h.order.append fun df hdf => ?_, fun ho hreplied => ?_, fun i pc' hpc' hp => ?_⟩
  · obtain ⟨-, src, he⟩ := mem_sentOn.mp hdf
    obtain ⟨eff, heff, heq⟩ := List.mem_map.mp he
    cases eff with
    | delivered d => cases heq
    | enqueued f =>
        cases heq
        refine h.reply ((callStep_keeps hout).sent _ heff).2 ?_
        rcases hreply.data df heff with hpast | ⟨hskips, hadmits⟩
        · exact replyOut_iff.mpr (.inl (h.past j pc hpc hpast))
        · simpa [State.gateRespected, hpc, hskips, hadmits] using hguard
  · have hold : s.replyOut o = true → ∃ sr, .synReply sr ∈
        sent ++ (out.effects.map (callEvent j o)).flatMap (Event.sentOn k) := fun hold => by
      obtain ⟨sr, hsr⟩ := h.reply (hopen ho) hold
      exact ⟨sr, List.mem_append_left _ hsr⟩
    rcases replyOut_iff.mp hreplied with hset | ⟨i, pc', hpc', howes⟩
    · refine hold (replyOut_iff.mpr ?_)
      rw [hflag'] at hset
      rcases hreply.stored hset with hset | howes
      · exact .inl (hflag.trans hset)
      · exact .inr ⟨j, pc, hpc, howes⟩
    · rw [hpcs] at hpc'
      split at hpc'
      · cases hpc'
        obtain ⟨sr, hsr⟩ := hreply.sent howes
        have htarget := sends_target ((callStep_keeps hout).sent _ hsr).1
        refine ⟨sr, List.mem_append_right _ (mem_sentOn.mpr ⟨htarget.trans hk, .call j, ?_⟩)⟩
        exact List.mem_map.mpr ⟨_, hsr, rfl⟩
      · exact hold (replyOut_iff.mpr (.inr ⟨i, pc', hpc', howes⟩))
  · rw [hflag']
    refine hreply.kept ?_
    rw [← hflag]
    rw [hpcs] at hpc'
    split at hpc'
    · cases hpc'
      rcases hreply.passed hp with hpast | hset
      · exact h.past j pc hpc hpast
      · exact hflag.trans hset
    · exact h.past i pc' hpc' hp

theorem onStream_replied {op : WorkerOp} (hop : op ≠ .storeReplied) (st : Stream H) :
    (op.onStream st).replied = st.replied := by
  cases op with
  | storeReplied => exact absurd rfl hop
  | pushData data =>
      simp only [WorkerOp.onStream, Stream.pushData]
      split
      · rfl
      · rfl
  | _ => rfl

theorem shown_sentOn (o : Nat) (st : Stream H) (found : Option Nat) (op : WorkerOp) (k : UInt32) :
    (Event.worked o op :: op.shown o st found).flatMap (Event.sentOn k) = [] := by
  cases op with
  | _ => rfl

theorem gate_step (hrun : (connection H).Run guard evs s) {s' : State H} {a : Action H}
    {es : List (Event H)} (hs : s.step a = some (s', es)) {o : Nat} {k : UInt32}
    (hk : s'.ids[o]? = some k) (hguard : s.gateRespected o a = true)
    (h : GateKept o (evs.flatMap (Event.sentOn k)) s) :
    GateKept o ((evs ++ es).flatMap (Event.sentOn k)) s' := by
  have hopen := channel_step hs
  have hid : ∀ st, s.objs[o]? = some st → st.streamId = k := fun st hst =>
    Option.some.inj ((ids_grow hs (ids_of_get hst)).symm.trans hk)
  rw [List.flatMap_append]
  cases stream_step hrun hs o with
  | call j alt pc st out action get obj outcome now calls events =>
      rw [action] at hguard
      rw [events]
      exact h.call get obj (hid st obj) hguard outcome now calls hopen
  | cancel j pc pc' st st' action get obj outcome now calls events =>
      obtain ⟨hflag, howes, hpast⟩ := callCancel_reply outcome
      rw [events]
      refine h.congr ?_ (fun i pc'' hpc hp => ?_) hopen (by simp)
      · rw [repliedFlag_of_get now, repliedFlag_of_get obj, hflag]
      · rw [calls] at hpc
        split at hpc
        · cases hpc
          rw [howes, hpast] at hp
          simp at hp
        · exact hpc
  | invoke j r action fresh now calls events =>
      obtain ⟨howes, hpast⟩ := entry_reply r
      rw [events]
      refine h.congr (by rw [State.repliedFlag, State.repliedFlag, now]) (fun i pc hpc hp => ?_)
        hopen (by simp [Event.sentOn])
      rw [calls] at hpc
      split at hpc
      · cases hpc
        rw [howes, hpast] at hp
        simp at hp
      · exact hpc
  | work i op rest st action stream todo obj now calls events =>
      rw [events, shown_sentOn]
      by_cases hop : op = .storeReplied
      · subst hop
        have hset : s'.repliedFlag o = true := repliedFlag_of_get now
        have hout : s.writeChannel.isOpen = true → s.replyOut o = true := fun ho => by
          rw [action] at hguard
          simpa [State.gateRespected, todo, stream, ho] using hguard
        rw [List.append_nil]
        exact ⟨h.order, fun ho _ => h.reply (hopen ho) (hout (hopen ho)), fun _ _ _ _ => hset⟩
      · refine h.congr ?_ (fun j pc hpc _ => calls j ▸ hpc) hopen (by simp)
        rw [repliedFlag_of_get now, repliedFlag_of_get obj, onStream_replied hop]
  | sweep st sweeps obj now calls events =>
      rw [events]
      refine h.congr ?_ (fun j pc hpc _ => calls j ▸ hpc) hopen (by simp)
      rw [repliedFlag_of_get now, repliedFlag_of_get obj]
      rfl
  | make f pc before now calls events =>
      rw [events]
      refine h.congr ?_ (fun j pc hpc _ => calls j ▸ hpc) hopen (by simp [Event.sentOn])
      rw [repliedFlag_of_get now, State.repliedFlag, before]
      rfl
  | other same calls unswept silent sent =>
      refine h.congr (by rw [State.repliedFlag, State.repliedFlag, same])
        (fun j pc hpc _ => calls j ▸ hpc) hopen fun df hdf => ?_
      obtain ⟨htarget, src, he⟩ := mem_sentOn.mp hdf
      rcases sent src _ he with hnotice | hid
      · cases hnotice
      · refine hid ?_
        rw [State.ids, List.getElem?_map, same, ← List.getElem?_map] at hk
        rw [htarget]
        exact hk

/-- A stream begins with no DATA frame. -/
theorem gateKept_new (hrun : (connection H).Run guard evs s) {o : Nat} {k : UInt32}
    (hnone : s.objs[o]? = none) (hk : k ∉ s.ids) : GateKept o (evs.flatMap (Event.sentOn k)) s := by
  have hpcs := pcOf_none hrun hnone
  have hflag : s.repliedFlag o = false := by rw [State.repliedFlag, hnone]
  have hempty : GateKept o [] s := by
    refine ⟨fun pre df post heq => by simp at heq, fun _ hout => ?_, fun j pc hpc => ?_⟩
    · rcases replyOut_iff.mp hout with hset | ⟨j, pc, hpc, -⟩
      · rw [hflag] at hset
        cases hset
      · rw [hpcs] at hpc
        cases hpc
    · rw [hpcs] at hpc
      cases hpc
  refine hempty.congr rfl (fun _ _ hpc _ => hpc) id fun df hdf => ?_
  rcases sentOn_id hrun hdf with hnotice | hmem
  · cases hnotice
  · exact hk hmem

theorem gate_kept {o : Nat} {k : UInt32} (h : (connection H).Run (GateRespected o) evs s)
    (hk : s.ids[o]? = some k) : GateKept o (evs.flatMap (Event.sentOn k)) s := by
  refine h.invariant (I := fun evs s => s.ids[o]? = some k →
    GateKept o (evs.flatMap (Event.sentOn k)) s) ?_ ?_ hk
  · intro hk
    cases hk
  · intro evs es s s' a hrun hguard hs ih hk
    refine gate_step hrun hs hk hguard ?_
    cases hst : s.objs[o]? with
    | some st =>
        have hid := ids_of_get hst
        have heq := ids_grow hs hid
        rw [hk] at heq
        cases heq
        exact ih hid
    | none =>
        refine gateKept_new hrun hst fun hmem => ?_
        obtain ⟨i, hi⟩ := List.getElem?_of_mem hmem
        cases (registry_run (hrun.step hguard hs)).unique (ids_grow hs hi) hk
        rw [State.ids, List.getElem?_map, hst] at hi
        cases hi

/-- **The reply is first.**  If the worker opens the gate of a stream only behind the
reply of the handler, and `poll_write` and `poll_shutdown` send only behind it, then
the write channel accepts no DATA frame of the stream before a SYN_REPLY. -/
theorem data_after_reply {o : Nat} {k : UInt32} (h : (connection H).Run (GateRespected o) evs s)
    (hk : s.ids[o]? = some k) : DataAfterReply (evs.flatMap (Event.sentOn k)) :=
  (gate_kept h hk).order

/-- A `write_data` waits while the peer is silent, and goes on after the reply. -/
theorem data_after_reply_writeWaits : ∃ evs s, (connection Unit).Run (GateRespected 0) evs s ∧
    (evs.flatMap (Event.sentOn 1)).length = 2 ∧
    DataAfterReply (evs.flatMap (Event.sentOn 1)) := by
  obtain ⟨evs, s, h, hcheck⟩ := Machine.exists_run_of_exec (connection Unit) (GateRespected 0)
    (registers (plainSyn 1 0) ++ applies (.synStream (plainSyn 1 0)) ++
      Action.invoke 0 (.writeData [1] false) :: calls 0 3 ++
      Action.invoke 0 (.sendReply () false) :: calls 1 3 ++ calls 0 4)
    (fun evs s => decide (s.ids[0]? = some 1 ∧ (evs.flatMap (Event.sentOn 1)).length = 2))
    (by decide +kernel)
  obtain ⟨hid, hlength⟩ := of_decide_eq_true hcheck
  exact ⟨evs, s, h, hlength, data_after_reply h hid⟩

/-- A SYN_REPLY of the peer opens the gate: `write_data` sends, and no reply has been
sent. -/
theorem data_before_reply : ¬ ∀ evs (s : State Unit) (o : Nat) (k : UInt32),
    (connection Unit).Reached evs s → s.ids[o]? = some k →
    DataAfterReply (evs.flatMap (Event.sentOn k)) := by
  intro hall
  let reply : Frame Unit := .synReply { streamId := 1, headers := (), flags := 0 }
  obtain ⟨evs, s, h, hcheck⟩ := Machine.exists_run_of_exec (connection Unit) Machine.free
    (registers (plainSyn 1 0) ++ applies (.synStream (plainSyn 1 0)) ++
      routes reply ++ applies reply ++ Action.invoke 0 (.writeData [1] false) :: calls 0 3)
    (fun evs s => decide (s.ids[0]? = some 1 ∧
      evs.flatMap (Event.sentOn 1) = [.data { streamId := 1, flags := 0, data := [1] }]))
    (by decide +kernel)
  obtain ⟨hid, hsent⟩ := of_decide_eq_true hcheck
  obtain ⟨sr, hsr⟩ := hall evs s 0 1 h hid [] _ [] hsent
  cases hsr

end SpdyStream.Session
