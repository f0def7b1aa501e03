/-
  Session/CallOrder.lean --- what a handler writes, call after call.

  Calls on one stream may overlap, and then their frames come in any order.  A handler that
  waits for each call before it makes the next has its replies and its DATA in the write
  channel in the order of its calls, and the bytes in them are those of the writes that
  have succeeded.
-/
import SpdyStream.Session.CallOutcomes
import SpdyStream.Session.Finished

set_option autoImplicit false

namespace SpdyStream.Session

open SpdyStream.Foundation
open SpdyStream.Framing

variable {H : Type}

/-! ## Lists in parts -/

/-- One part of a list is longer, and there are none behind it. -/
theorem flatMap_range_grow {β : Type} {g g' : Nat → List β} {n j : Nat} {x : List β} (hj : j < n)
    (hbefore : ∀ k < j, g' k = g k) (hone : g' j = g j ++ x)
    (hbehind : ∀ k, j < k → k < n → g k = [] ∧ g' k = []) :
    (List.range n).flatMap g' = (List.range n).flatMap g ++ x := by
  induction n with
  | zero => exact absurd hj (Nat.not_lt_zero j)
  | succ n ih =>
      rw [List.range_succ, List.flatMap_append, List.flatMap_append, List.flatMap_singleton,
        List.flatMap_singleton]
      rcases Nat.lt_or_eq_of_le (Nat.le_of_lt_succ hj) with hlt | rfl
      · obtain ⟨hg, hg'⟩ := hbehind n hlt (Nat.lt_succ_self n)
        rw [hg, hg', List.append_nil, List.append_nil]
        exact ih hlt fun k hk hkn => hbehind k hk (Nat.lt_succ_of_lt hkn)
      · have hsame : (List.range j).flatMap g' = (List.range j).flatMap g :=
          List.flatMap_congr fun k hk => hbefore k (List.mem_range.mp hk)
        rw [hsame, hone, List.append_assoc]

/-! ## One call after the other -/

/-- A handler calls only when its calls on stream `o` have returned. -/
def State.callsInTurn (o : Nat) (s : State H) : Action H → Bool
  | .invoke o' _ => o' != o || s.calls.all fun c => c.stream != o || c.pc.isReturned
  | _ => true

/-- The condition under which a stream is written by one call after the other. -/
def InTurn (o : Nat) (_ : List (Event H)) (s : State H) (a : Action H) : Prop :=
  s.callsInTurn o a = true

instance (o : Nat) (evs : List (Event H)) (s : State H) (a : Action H) :
    Decidable (InTurn o evs s a) := inferInstanceAs (Decidable (_ = true))

/-- The replies and DATA frames that a call on stream `o` has sent. -/
def State.responsesBy (o : Nat) (evs : List (Event H)) (s : State H) (k : Nat) : List (Frame H) :=
  match s.calls[k]? with
  | some c => if c.stream = o then (evs.flatMap (Event.sentBy k)).filter isResponse else []
  | none => []

variable {evs : List (Event H)} {s : State H} {o : Nat}

/-- A call that has returned does nothing more. -/
theorem not_returned_of_step {alt : Bool} {pc : CallPc H} {st : Stream H} {c : Channel H}
    {out : CallOutcome H} (h : callStep alt pc st c = some out) : pc.isReturned = false := by
  cases pc with
  | returned r => cases h
  | _ => rfl

theorem not_returned_of_cancel {pc pc' : CallPc H} {st st' : Stream H}
    (h : callCancel pc st = some (pc', st')) : pc.isReturned = false := by
  cases pc with
  | returned r => cases h
  | _ => rfl

/-- The calls on stream `o` but the last have returned. -/
def AllButLast (o : Nat) (s : State H) : Prop :=
  ∀ (i j : Nat) (ci cj : Call H), i < j → s.calls[i]? = some ci → s.calls[j]? = some cj →
    ci.stream = o →
    cj.stream = o → ci.pc.isReturned = true

theorem AllButLast.set {s' : State H} {j : Nat} {c : Call H} {pc : CallPc H}
    (h : AllButLast o s) (hget : s.calls[j]? = some c) (hpc : c.pc.isReturned = false)
    (hcalls : s'.calls = s.calls.set j { c with pc := pc }) : AllButLast o s' := by
  have hold : ∀ {i ci}, s'.calls[i]? = some ci →
      ∃ ci', s.calls[i]? = some ci' ∧ ci'.stream = ci.stream ∧ (i ≠ j → ci' = ci) := by
    intro i ci hi
    rw [hcalls, List.getElem?_set] at hi
    split at hi
    · rename_i hij
      subst hij
      split at hi
      · cases hi
        exact ⟨c, hget, rfl, fun hne => absurd rfl hne⟩
      · cases hi
    · exact ⟨ci, hi, rfl, fun _ => rfl⟩
  intro i k ci ck hik hi hk hio hko
  obtain ⟨ci', hi', hstream, hsame⟩ := hold hi
  obtain ⟨ck', hk', hstream', -⟩ := hold hk
  have hreturned := h i k ci' ck' hik hi' hk' (hstream.trans hio) (hstream'.trans hko)
  by_cases hij : i = j
  · subst hij
    cases hget.symm.trans hi'
    rw [hpc] at hreturned
    cases hreturned
  · rw [← hsame hij]
    exact hreturned

/-- A step in which a call is made. -/
theorem action_of_invoked {s' : State H} {a : Action H} {es : List (Event H)} {r : Request H}
    (hs : s.step a = some (s', es)) (he : .invoked o r ∈ es) : a = .invoke o r := by
  cases step_kind hs with
  | aside ha kind =>
      cases kind with
      | call k alt c st out action get obj outcome state events =>
          rw [events] at he
          obtain ⟨eff, -, heq⟩ := List.mem_map.mp he
          cases eff with
          | enqueued f => cases heq
          | delivered d => cases heq
      | cancel k c st st' pc action get obj outcome state events =>
          rw [events] at he
          cases he
      | invoke o' r' action mem state events =>
          rw [events] at he
          cases List.mem_singleton.mp he
          exact action
      | apart h =>
          rcases h.events _ he with ⟨k, g, heq⟩ | ⟨k, p, heq⟩
          · cases heq
          · cases heq
  | read f pc state events =>
      rw [events] at he
      rcases List.mem_cons.mp he with heq | hmem
      · cases heq
      · obtain ⟨_, -, -, heq⟩ := mem_rejectedAtOnce hmem
        cases heq
  | move hmove =>
      cases hmove with
      | plain still before next loop mute => cases he
      | answer f c es pc channel events =>
          rcases events with ⟨rfl, -⟩ | rfl
          · cases he
          · cases List.mem_singleton.mp he
      | _ => simp at he
  | worker i hmove action =>
      cases hmove with
      | _ => simp at he

theorem allButLast_run (h : (connection H).Run (InTurn o) evs s) : AllButLast o s := by
  refine h.invariant (I := fun _ s => AllButLast o s) ?_ ?_
  · intro i j ci cj _ hi
    cases hi
  · intro evs es s s' a hrun hguard hs ih
    cases calls_step hrun hs with
    | call j alt c st out action get obj outcome state events =>
        exact ih.set get (not_returned_of_step outcome) (by rw [state])
    | cancel j c st st' pc get obj outcome state events =>
        exact ih.set get (not_returned_of_cancel outcome) (by rw [state])
    | invoke o' r mem state events =>
        have haction := action_of_invoked (o := o') (r := r) hs (by simp [events])
        have hcalls : s'.calls = s.calls ++ [{ stream := o', pc := r.entry }] := by rw [state]
        intro i j ci cj hij hi hj hio hjo
        have hlt : j < s'.calls.length := (List.getElem?_eq_some_iff.mp hj).1
        rw [hcalls, List.length_append, List.length_singleton] at hlt
        rw [hcalls, List.getElem?_append_left (by omega)] at hi
        rcases Nat.lt_or_eq_of_le (Nat.le_of_lt_succ hlt) with hold | rfl
        · rw [hcalls, List.getElem?_append_left hold] at hj
          exact ih i j ci cj hij hi hj hio hjo
        · rw [hcalls, List.getElem?_append_right (Nat.le_refl _), Nat.sub_self] at hj
          cases hj
          subst hjo
          have hall : s.calls.all (fun c => c.stream != o' || c.pc.isReturned) = true := by
            rw [haction] at hguard
            simpa [InTurn, State.callsInTurn] using hguard
          have hone := List.all_eq_true.mp hall ci (List.mem_of_getElem? hi)
          simpa [hio] using hone
    | other calls flag sent invoked =>
        intro i j ci cj hij hi hj
        rw [calls] at hi hj
        exact ih i j ci cj hij hi hj

/-! ## The order of what is sent -/

/-- What a call sends has the id of its stream. -/
theorem sentOn_effects {alt : Bool} {pc : CallPc H} {st : Stream H} {c : Channel H}
    {out : CallOutcome H} (h : callStep alt pc st c = some out) (j o : Nat) (k : UInt32) :
    (out.effects.map (callEvent j o)).flatMap (Event.sentOn k) =
      if st.streamId = k then out.effects.flatMap CallEffect.frame else [] := by
  have hone : ∀ eff ∈ out.effects, Event.sentOn k (callEvent j o eff) =
      if st.streamId = k then eff.frame else [] := by
    intro eff heff
    cases eff with
    | delivered d => exact (ite_self []).symm
    | enqueued f =>
        have htarget := sends_target ((callStep_keeps h).sent f heff).1
        rw [callEvent, Event.sentOn, htarget]
        rfl
  rw [List.flatMap_map, List.flatMap_congr hone]
  split
  · rfl
  · exact List.flatMap_eq_nil_iff.mpr fun _ _ => rfl

theorem responsesBy_other {s' : State H} {es : List (Event H)} {k : Nat}
    (hcalls : (s'.calls[k]?).map Call.stream = (s.calls[k]?).map Call.stream)
    (hes : es.flatMap (Event.sentBy k) = []) :
    s'.responsesBy o (evs ++ es) k = s.responsesBy o evs k := by
  unfold State.responsesBy
  rw [List.flatMap_append, hes, List.append_nil]
  cases hget : s.calls[k]? with
  | none =>
      rw [hget] at hcalls
      rw [Option.map_eq_none_iff.mp hcalls]
  | some c =>
      rw [hget] at hcalls
      obtain ⟨c', hget', hstream⟩ := Option.map_eq_some_iff.mp hcalls
      rw [hget']
      show (if c'.stream = o then _ else _) = _
      rw [hstream]

/-- Setting the place of a call leaves the streams of all calls. -/
theorem stream_of_set {l : List (Call H)} {j : Nat} {c : Call H} (hget : l[j]? = some c)
    (pc : CallPc H) (k : Nat) :
    ((l.set j { c with pc := pc })[k]?).map Call.stream = (l[k]?).map Call.stream := by
  rw [List.getElem?_set]
  split
  · rename_i hjk
    subst hjk
    rw [if_pos (List.getElem?_eq_some_iff.mp hget).1, hget]
    rfl
  · rfl

theorem response_step (hrun : (connection H).Run (InTurn o) evs s) {s' : State H} {a : Action H}
    {es : List (Event H)} (hs : s.step a = some (s', es)) (hguard : InTurn o evs s a) {k : UInt32}
    (hk : s'.ids[o]? = some k)
    (ih : (evs.flatMap (Event.sentOn k)).filter isResponse =
      (List.range s.calls.length).flatMap (s.responsesBy o evs)) :
    ((evs ++ es).flatMap (Event.sentOn k)).filter isResponse =
      (List.range s'.calls.length).flatMap (s'.responsesBy o (evs ++ es)) := by
  rw [List.flatMap_append, List.filter_append, ih]
  cases calls_step hrun hs with
  | call j alt c st out action get obj outcome state events =>
      have hcalls : s'.calls = s.calls.set j { c with pc := out.pc } := by rw [state]
      have hlen : s'.calls.length = s.calls.length := by rw [hcalls, List.length_set]
      have hj : j < s.calls.length := (List.getElem?_eq_some_iff.mp get).1
      have hothers : ∀ i, i ≠ j → s'.responsesBy o (evs ++ es) i = s.responsesBy o evs i := by
        intro i hi
        refine responsesBy_other ?_ ?_
        · rw [hcalls, stream_of_set get]
        · rw [events]
          exact sentBy_others (Ne.symm hi) _ _
      rw [hlen, events, sentOn_effects outcome]
      have hid := ids_grow hs (ids_of_get obj)
      by_cases ho : c.stream = o
      · subst ho
        cases hk.symm.trans hid
        rw [if_pos rfl, ← events]
        refine (flatMap_range_grow hj (fun i hi => hothers i (Nat.ne_of_lt hi)) ?_ ?_).symm
        · rw [State.responsesBy, State.responsesBy, hcalls, List.getElem?_set_self hj, get]
          show (if c.stream = c.stream then _ else _) = (if c.stream = c.stream then _ else _) ++ _
          rw [if_pos rfl, if_pos rfl, List.flatMap_append, List.filter_append, events,
            sentBy_effects]
        · intro i hji hi
          -- a later call on the stream would have waited for this one
          have hnone : s.responsesBy c.stream evs i = [] := by
            unfold State.responsesBy
            cases hget : s.calls[i]? with
            | none => rfl
            | some ci =>
                refine if_neg fun hio => ?_
                have hreturned := allButLast_run hrun j i c ci hji get hget rfl hio
                rw [not_returned_of_step outcome] at hreturned
                cases hreturned
          exact ⟨hnone, (hothers i (Nat.ne_of_gt hji)).trans hnone⟩
      · have hne : st.streamId ≠ k := fun heq => by
          rw [heq] at hid
          exact ho ((registry_run (hrun.step hguard hs)).unique hid hk)
        rw [if_neg hne, ← events]
        refine (List.append_nil _).trans (List.flatMap_congr fun i _ => ?_)
        by_cases hij : i = j
        · subst hij
          rw [State.responsesBy, State.responsesBy, hcalls, List.getElem?_set_self hj, get]
          exact (if_neg ho).trans (if_neg ho).symm
        · exact (hothers i hij).symm
  | cancel j c st st' pc get obj outcome state events =>
      have hcalls : s'.calls = s.calls.set j { c with pc := pc } := by rw [state]
      have hlen : s'.calls.length = s.calls.length := by rw [hcalls, List.length_set]
      rw [hlen, events]
      refine (List.append_nil _).trans (List.flatMap_congr fun i _ => ?_)
      refine (responsesBy_other ?_ rfl).symm
      rw [hcalls, stream_of_set get]
  | invoke o' r mem state events =>
      have hcalls : s'.calls = s.calls ++ [{ stream := o', pc := r.entry }] := by rw [state]
      have hlen : s'.calls.length = s.calls.length + 1 := by
        rw [hcalls, List.length_append, List.length_singleton]
      have hnew : s'.responsesBy o (evs ++ es) s.calls.length = [] := by
        have hmute : (evs ++ es).flatMap (Event.sentBy s.calls.length) = [] := by
          rw [List.flatMap_append, (staged_run hrun).future _ (Nat.le_refl _), events]
          rfl
        unfold State.responsesBy
        rw [hmute]
        split
        · exact ite_self []
        · rfl
      rw [hlen, List.range_succ, List.flatMap_append, List.flatMap_singleton, hnew, events]
      refine congrArg (· ++ []) (List.flatMap_congr fun i hi => ?_)
      refine (responsesBy_other ?_ rfl).symm
      rw [hcalls, List.getElem?_append_left (List.mem_range.mp hi)]
  | other calls flag sent invoked =>
      have hnone : (es.flatMap (Event.sentOn k)).filter isResponse = [] := by
        refine List.filter_eq_nil_iff.mpr fun f hf => ?_
        obtain ⟨-, src, he⟩ := mem_sentOn.mp hf
        rw [(notice_plain (sent src f he).2).1]
        exact Bool.false_ne_true
      rw [hnone, calls]
      refine (List.append_nil _).trans (List.flatMap_congr fun i _ => ?_)
      refine (responsesBy_other (by rw [calls]) ?_).symm
      refine List.flatMap_eq_nil_iff.mpr fun e he => ?_
      cases e with
      | enqueued src f =>
          cases src with
          | call j => exact absurd rfl ((sent _ f he).1 j)
          | _ => rfl
      | _ => rfl

/-- Before a stream there is nothing sent for it. -/
theorem responses_new (hrun : (connection H).Run (InTurn o) evs s) {k : UInt32}
    (hnone : s.ids[o]? = none) (hk : k ∉ s.ids) :
    (evs.flatMap (Event.sentOn k)).filter isResponse =
      (List.range s.calls.length).flatMap (s.responsesBy o evs) := by
  have hsent : (evs.flatMap (Event.sentOn k)).filter isResponse = [] := by
    refine List.filter_eq_nil_iff.mpr fun f hf => ?_
    rcases sentOn_id hrun hf with hnotice | hmem
    · rw [(notice_plain hnotice).1]
      exact Bool.false_ne_true
    · exact absurd hmem hk
  refine hsent.trans (List.flatMap_eq_nil_iff.mpr fun i _ => ?_).symm
  unfold State.responsesBy
  cases hget : s.calls[i]? with
  | none => rfl
  | some c =>
      refine if_neg fun ho => ?_
      obtain ⟨k', hk'⟩ := call_id hrun hget
      rw [ho, hnone] at hk'
      cases hk'

theorem responses_run (h : (connection H).Run (InTurn o) evs s) {k : UInt32}
    (hk : s.ids[o]? = some k) : (evs.flatMap (Event.sentOn k)).filter isResponse =
      (List.range s.calls.length).flatMap (s.responsesBy o evs) := by
  refine h.invariant (I := fun evs s => s.ids[o]? = some k →
    (evs.flatMap (Event.sentOn k)).filter isResponse =
      (List.range s.calls.length).flatMap (s.responsesBy o evs)) ?_ ?_ hk
  · intro hk
    cases hk
  · intro evs es s s' a hrun hguard hs ih hk
    refine response_step hrun hs hguard hk ?_
    cases hid : s.ids[o]? with
    | some k' =>
        have heq := ids_grow hs hid
        rw [hk] at heq
        cases heq
        exact ih hid
    | none =>
        refine responses_new hrun hid fun hmem => ?_
        obtain ⟨i, hi⟩ := List.getElem?_of_mem hmem
        cases (registry_run (hrun.step hguard hs)).unique (ids_grow hs hi) hk
        rw [hid] at hi
        cases hi

/-! ## Bytes -/

/-- The bytes of a DATA frame. -/
def dataBytes : Frame H → Bytes
  | .data df => df.data
  | _ => []

/-- The call has returned and says that it has sent its frame. -/
def CallPc.succeeded (r : Request H) : CallPc H → Bool
  | .returned result => result = r.success
  | _ => false

/-- What a call on stream `o` has written: what it was given, if it has succeeded. -/
def State.writtenBy (o : Nat) (evs : List (Event H)) (s : State H) (k : Nat) : Bytes :=
  match s.calls[k]?, (evs.flatMap Event.invocation)[k]? with
  | some c, some (_, r) => if c.stream = o ∧ c.pc.succeeded r = true then r.payload else []
  | _, _ => []

theorem dataBytes_frame {streamId : UInt32} {r : Request H} {f : Frame H}
    (h : r.frame streamId = some f) : dataBytes f = r.payload := by
  cases r with
  | readData => cases h
  | _ =>
      cases h
      rfl

theorem dataBytes_response {f : Frame H} (h : isResponse f = false) : dataBytes f = [] := by
  cases f with
  | data df => cases h
  | _ => rfl

theorem flatMap_dataBytes (fs : List (Frame H)) :
    (fs.filter isResponse).flatMap dataBytes = fs.flatMap dataBytes := by
  induction fs with
  | nil => rfl
  | cons f fs ih =>
      rw [List.filter_cons]
      split
      · rw [List.flatMap_cons, List.flatMap_cons, ih]
      · rename_i hf
        rw [ih, List.flatMap_cons, dataBytes_response (Bool.not_eq_true _ ▸ hf)]
        rfl

theorem Stage.bytes {streamId : UInt32} {flag : Bool} {r : Request H} {pc : CallPc H}
    {sent : List (Frame H)} (h : Stage streamId flag r pc sent) :
    sent.flatMap dataBytes = if pc.succeeded r = true then r.payload else [] := by
  cases h with
  | before _ request =>
      refine (if_neg fun hpc => ?_).symm
      cases pc with
      | returned result => cases request
      | _ => cases hpc
  | finishing _ f place frame success empty =>
      rw [List.flatMap_singleton, dataBytes_frame frame, empty]
      exact (ite_self []).symm
  | done f frame =>
      rw [List.flatMap_singleton, dataBytes_frame frame]
      exact (if_pos (decide_eq_true rfl)).symm
  | failed result failure =>
      refine (if_neg fun hpc => ?_).symm
      rw [of_decide_eq_true hpc] at failure
      cases r with
      | _ => cases failure
  | finished request set =>
      subst request
      exact (ite_self []).symm

theorem bytes_responsesBy (h : (connection H).Run (InTurn o) evs s) (k : Nat) :
    (s.responsesBy o evs k).flatMap dataBytes = s.writtenBy o evs k := by
  unfold State.responsesBy State.writtenBy
  cases hget : s.calls[k]? with
  | none => rfl
  | some c =>
      obtain ⟨r, streamId, hinv, -, hstage⟩ := (staged_run h).stage k c hget
      rw [hinv]
      show (if c.stream = o then _ else _ : List (Frame H)).flatMap dataBytes =
        if c.stream = o ∧ c.pc.succeeded r = true then r.payload else []
      by_cases ho : c.stream = o
      · rw [if_pos ho, flatMap_dataBytes, hstage.bytes]
        simp [ho]
      · rw [if_neg ho, if_neg fun hboth => ho hboth.1]
        rfl

theorem bytes_run (h : (connection H).Run (InTurn o) evs s) {k : UInt32}
    (hk : s.ids[o]? = some k) : (evs.flatMap (Event.sentOn k)).flatMap dataBytes =
      (List.range s.calls.length).flatMap (s.writtenBy o evs) := by
  rw [← flatMap_dataBytes, responses_run h hk, List.flatMap_assoc]
  exact List.flatMap_congr fun i _ => bytes_responsesBy h i

/-! ## In call order -/

/-- What goes out on a stream that is written by one call after the other. -/
structure InCallOrder (o : Nat) (k : UInt32) (evs : List (Event H)) (s : State H) : Prop where
  /-- the replies and DATA frames are those of the calls, in the order of the calls -/
  frames : (evs.flatMap (Event.sentOn k)).filter isResponse =
    (List.range s.calls.length).flatMap (s.responsesBy o evs)
  /-- the bytes are those of the writes that have succeeded, and no others -/
  bytes : (evs.flatMap (Event.sentOn k)).flatMap dataBytes =
    (List.range s.calls.length).flatMap (s.writtenBy o evs)

/-- **In call order.**  If a handler makes one call on a stream after the other, then what
the write channel accepts for the stream is what its calls have sent, call after call, and
the bytes are those that its successful writes were given. -/
theorem written_inCallOrder (h : (connection H).Run (InTurn o) evs s) {k : UInt32}
    (hk : s.ids[o]? = some k) : InCallOrder o k evs s :=
  ⟨responses_run h hk, bytes_run h hk⟩

/-- A reply, a write that is dropped while it waits for room, and two that go through. -/
theorem written_inCallOrder_dropped : ∃ evs s, (connection Unit).Run (InTurn 0) evs s ∧
    (List.range s.calls.length).flatMap (s.writtenBy 0 evs) = [1, 3] ∧
    InCallOrder 0 1 evs s := by
  obtain ⟨evs, s, h, hcheck⟩ := Machine.exists_run_of_exec (connection Unit) (InTurn 0)
    (registers (plainSyn 1 0) ++ applies (.synStream (plainSyn 1 0)) ++
      [.invoke 0 (.sendReply () false)] ++ calls 0 3 ++
      [.invoke 0 (.pollWrite [1]), .call 1 false] ++
      [.invoke 0 (.writeData [2] false), .call 2 false, .call 2 false, .cancel 2] ++
      [.invoke 0 (.writeData [3] true)] ++ calls 3 4)
    (fun evs s => decide (s.ids[0]? = some 1 ∧
      (List.range s.calls.length).flatMap (s.writtenBy 0 evs) = [1, 3]))
    (by decide +kernel)
  obtain ⟨hid, hbytes⟩ := of_decide_eq_true hcheck
  exact ⟨evs, s, h, hbytes, written_inCallOrder h hid⟩

end SpdyStream.Session
