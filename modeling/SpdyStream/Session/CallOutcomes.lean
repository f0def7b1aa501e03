/-
  Session/CallOutcomes.lean --- what a call says, and what it has sent.

  Each call of a handler is for one frame at most.  `Stage` compares where a call is with
  what it has sent so far: nothing as long as it has its send before it, and its frame
  behind it.  A call that is dropped or fails has sent nothing, and one that returns
  success has sent its frame, so a handler that is told of a failure may call again.  The
  exception is a `poll_shutdown` that finds `local_fin_sent` set.
-/
import SpdyStream.Session.LocalFin
import SpdyStream.Session.OwnSteps

set_option autoImplicit false

namespace SpdyStream.Session

open SpdyStream.Foundation
open SpdyStream.Framing

variable {H : Type}

/-! ## Calls and their frames -/

/-- The frame that a call on a stream is for. -/
def Request.frame (streamId : UInt32) : Request H → Option (Frame H)
  | .sendReply headers fin =>
      some (.synReply { streamId, headers, flags := if fin then flagFin else 0 })
  | .writeData data fin => some (.data { streamId, flags := if fin then dataFlagFin else 0, data })
  | .pollWrite buf => some (.data { streamId, flags := 0, data := buf })
  | .pollShutdown => some (.data { streamId, flags := dataFlagFin, data := [] })
  | .reset status => some (.rstStream { streamId, status })
  | .readData => none

/-- The bytes that a call has to write. -/
def Request.payload : Request H → Bytes
  | .writeData data _ => data
  | .pollWrite buf => buf
  | .sendReply _ _ | .pollShutdown | .reset _ | .readData => []

/-- What a call returns that has sent its frame. -/
def Request.success : Request H → CallResult
  | .pollWrite buf => .written buf.length
  | _ => .ok

/-- The call says that it has done what it was for. -/
def CallResult.isSuccess : CallResult → Bool
  | .ok | .written _ => true
  | .failed _ | .brokenPipe _ | .pending | .data _ | .cancelled => false

/-- The request of a call that has its send still before it. -/
def CallPc.unsent : CallPc H → Option (Request H)
  | .replySend headers fin => some (.sendReply headers fin)
  | .writeLoad data fin | .writeNotified data fin | .writeReload data fin _
  | .writeWait data fin _ | .writeCheckFin data fin | .writeSend data fin =>
      some (.writeData data fin)
  | .writeStoreFin data => some (.writeData data true)
  | .pollSend buf => some (.pollWrite buf)
  | .shutdownLoad | .shutdownSend => some .pollShutdown
  | .resetSend status => some (.reset status)
  | .readLock | .readTry | .readBorrow | .readSelect | .readDrain => some .readData
  | .replyStoreReplied _ | .replyNotify _ | .replyStoreFin | .shutdownStore | .returned _ => none

/-- The call has its send behind it, and stores and notifications before it. -/
def CallPc.finishing : CallPc H → Bool
  | .replyStoreReplied _ | .replyNotify _ | .replyStoreFin | .shutdownStore => true
  | _ => false

/-- Where a call is, and what it has sent, when `local_fin_sent` of its stream is `flag`. -/
inductive Stage (streamId : UInt32) (flag : Bool) (r : Request H) :
    CallPc H → List (Frame H) → Prop where
  | before (pc : CallPc H) (request : pc.unsent = some r) : Stage streamId flag r pc []
  | finishing (pc : CallPc H) (f : Frame H) (place : pc.finishing = true)
      (frame : r.frame streamId = some f) (success : r.success = .ok) (empty : r.payload = []) :
      Stage streamId flag r pc [f]
  | done (f : Frame H) (frame : r.frame streamId = some f) :
      Stage streamId flag r (.returned r.success) [f]
  | failed (result : CallResult) (failure : result.isSuccess = false) :
      Stage streamId flag r (.returned result) []
  /-- it has found `local_fin_sent` set -/
  | finished (request : r = .pollShutdown) (set : flag = true) :
      Stage streamId flag r (.returned .ok) []

theorem stage_entry (streamId : UInt32) (flag : Bool) (r : Request H) :
    Stage streamId flag r r.entry [] := by
  refine .before _ ?_
  cases r with
  | _ => rfl

/-- The flag is set later. -/
theorem Stage.mono {streamId : UInt32} {flag flag' : Bool} {r : Request H} {pc : CallPc H}
    {sent : List (Frame H)} (h : Stage streamId flag r pc sent)
    (hflag : flag = true → flag' = true) : Stage streamId flag' r pc sent := by
  cases h with
  | before _ request => exact .before _ request
  | finishing _ f place frame success empty => exact .finishing _ f place frame success empty
  | done f frame => exact .done f frame
  | failed result failure => exact .failed result failure
  | finished request set => exact .finished request (hflag set)

/-! ## One operation -/

/-- The frames among the effects of an operation. -/
def CallEffect.frame : CallEffect H → List (Frame H)
  | .enqueued f => [f]
  | .delivered _ => []

/-- A send that is waited for: its frame is sent and the call goes on, or it fails. -/
theorem stage_send {st : Stream H} {flag : Bool} {c : Channel H} {f : Frame H} {r : Request H}
    {next : CallPc H} {out : CallOutcome H} (h : sendThen c st f next = some out)
    (hnext : Stage st.streamId flag r next [f]) :
    Stage st.streamId flag r out.pc (out.effects.flatMap CallEffect.frame) := by
  rcases sendThen_cases h with ⟨-, rfl⟩ | ⟨-, heffects, -, hpc⟩
  · exact .failed _ rfl
  · rw [heffects, hpc]
    exact hnext

/-- So it is with a `try_send`. -/
theorem stage_try (blocked : Bool) {st : Stream H} {flag : Bool} {c : Channel H} {f : Frame H}
    {r : Request H} {next : CallPc H} (hnext : Stage st.streamId flag r next [f]) :
    Stage st.streamId flag r (tryThen blocked c st f next).pc
      ((tryThen blocked c st f next).effects.flatMap CallEffect.frame) := by
  unfold tryThen
  split
  · exact .failed _ rfl
  · exact .failed _ rfl
  · split
    · exact .failed _ rfl
    · exact hnext

/-- An operation of a call that has not sent yet. -/
theorem stage_before {alt : Bool} {pc : CallPc H} {st : Stream H} {c : Channel H}
    {out : CallOutcome H} {r : Request H} (hpc : pc.unsent = some r)
    (h : callStep alt pc st c = some out) :
    Stage st.streamId out.stream.localFinSent r out.pc (out.effects.flatMap CallEffect.frame) := by
  cases call_step h with
  | replySend headers fin send =>
      cases hpc
      exact stage_send send (.finishing _ _ rfl rfl rfl rfl)
  | writeSend data fin send =>
      cases hpc
      exact stage_send send (.done _ rfl)
  | resetSend status send =>
      cases hpc
      exact stage_send send (.done _ rfl)
  | pollSend buf =>
      cases hpc
      exact stage_try alt (.done _ rfl)
  | shutdownSend =>
      cases hpc
      exact stage_try alt (.finishing _ _ rfl rfl rfl rfl)
  | shutdownDone sent =>
      cases hpc
      exact .finished rfl sent
  | checkFails data fin sent | borrowEnds closed | drainEnds queue | tryTakes d rest queue
  | selectTakes d rest branch queue | drainTakes d rest queue => exact .failed _ rfl
  | storesReplied fin | notifies | notifiesFin | storesFin | shutdownStores => cases hpc
  | loadsReplied | loadsUnreplied | notified | reloadsReplied | reloadsUnreplied | wakes
  | checkFin | checkPlain | claimsFin | shutdownGoes | locks | tryEmpty | borrowGoes
  | selectCloses => exact .before _ hpc

/-- An operation of a call that has sent its frame. -/
theorem stage_finishing {alt : Bool} {pc : CallPc H} {st : Stream H} {c : Channel H}
    {out : CallOutcome H} {r : Request H} {f : Frame H} {streamId : UInt32} {flag : Bool}
    (hpc : pc.finishing = true) (hframe : r.frame streamId = some f) (hsuccess : r.success = .ok)
    (hempty : r.payload = []) (h : callStep alt pc st c = some out) :
    out.effects = [] ∧ Stage streamId flag r out.pc [f] := by
  have hdone : Stage streamId flag r (.returned .ok) [f] := by
    rw [← hsuccess]
    exact .done f hframe
  cases call_step h with
  | storesReplied fin | notifiesFin => exact ⟨rfl, .finishing _ f rfl hframe hsuccess hempty⟩
  | notifies | storesFin | shutdownStores => exact ⟨rfl, hdone⟩
  | _ => cases hpc

theorem stage_step {alt : Bool} {pc : CallPc H} {st : Stream H} {c : Channel H}
    {out : CallOutcome H} {r : Request H} {sent : List (Frame H)}
    (hstage : Stage st.streamId st.localFinSent r pc sent) (h : callStep alt pc st c = some out) :
    Stage st.streamId out.stream.localFinSent r out.pc
      (sent ++ out.effects.flatMap CallEffect.frame) := by
  cases hstage with
  | before _ request => exact stage_before request h
  | finishing _ f place frame success empty =>
      obtain ⟨hmute, hnext⟩ := stage_finishing place frame success empty h
      rw [hmute]
      exact hnext
  | done f frame => cases h
  | failed result failure => cases h
  | finished request set => cases h

/-- A call is dropped only where it has not sent. -/
theorem stage_cancel {pc pc' : CallPc H} {st st' : Stream H} {r : Request H}
    {sent : List (Frame H)} {flag : Bool} (hstage : Stage st.streamId flag r pc sent)
    (h : callCancel pc st = some (pc', st')) : Stage st.streamId flag r pc' sent := by
  have hpc : pc' = .returned .cancelled := by
    cases pc with
    | replySend _ _ | writeWait _ _ _ | writeSend _ _ | resetSend _ | readLock | readSelect =>
        cases h
        rfl
    | _ => cases h
  rw [hpc]
  cases hstage with
  | before _ request => exact .failed _ rfl
  | finishing _ f place frame success empty =>
      cases pc with
      | replyStoreReplied _ | replyNotify _ | replyStoreFin | shutdownStore => cases h
      | _ => cases place
  | done f frame => cases h
  | failed result failure => cases h
  | finished request set => cases h

/-! ## Runs -/

/-- The calls that handlers have made, on which streams. -/
def Event.invocation : Event H → List (Nat × Request H)
  | .invoked o r => [(o, r)]
  | _ => []

/-- The frames that call `k` has sent. -/
def Event.sentBy (k : Nat) : Event H → List (Frame H)
  | .enqueued (.call j) f => if j = k then [f] else []
  | _ => []

theorem sentBy_effects (k o : Nat) (effects : List (CallEffect H)) :
    (effects.map (callEvent k o)).flatMap (Event.sentBy k) =
      effects.flatMap CallEffect.frame := by
  rw [List.flatMap_map]
  refine List.flatMap_congr fun eff _ => ?_
  cases eff with
  | enqueued f => exact if_pos rfl
  | delivered d => rfl

theorem sentBy_others {j k : Nat} (hne : j ≠ k) (o : Nat) (effects : List (CallEffect H)) :
    (effects.map (callEvent j o)).flatMap (Event.sentBy k) = [] := by
  rw [List.flatMap_map]
  refine List.flatMap_eq_nil_iff.mpr fun eff _ => ?_
  cases eff with
  | enqueued f => exact if_neg hne
  | delivered d => rfl

theorem invocation_effects (k o : Nat) (effects : List (CallEffect H)) :
    (effects.map (callEvent k o)).flatMap Event.invocation = [] := by
  rw [List.flatMap_map]
  refine List.flatMap_eq_nil_iff.mpr fun eff _ => ?_
  cases eff with
  | _ => rfl

/-- Every call is at a stage of its request. -/
structure Staged (evs : List (Event H)) (s : State H) : Prop where
  count : (evs.flatMap Event.invocation).length = s.calls.length
  stage : ∀ k c, s.calls[k]? = some c → ∃ r streamId,
    (evs.flatMap Event.invocation)[k]? = some (c.stream, r) ∧
      s.ids[c.stream]? = some streamId ∧
      Stage streamId (s.finFlag c.stream) r c.pc (evs.flatMap (Event.sentBy k))
  future : ∀ k, s.calls.length ≤ k → evs.flatMap (Event.sentBy k) = []

variable {guard : List (Event H) → State H → Action H → Prop} {evs : List (Event H)} {s : State H}

/-- A step in which call `j` is at another place, and may have sent. -/
theorem Staged.set {es : List (Event H)} {s' : State H} {j : Nat} {c : Call H} {pc : CallPc H}
    (h : Staged evs s) (hget : s.calls[j]? = some c)
    (hids : ∀ (o : Nat) (id : UInt32), s.ids[o]? = some id → s'.ids[o]? = some id)
    (hflags : ∀ o, s.finFlag o = true → s'.finFlag o = true)
    (hcalls : s'.calls = s.calls.set j { c with pc := pc })
    (hmute : es.flatMap Event.invocation = [])
    (hothers : ∀ k, k ≠ j → es.flatMap (Event.sentBy k) = [])
    (hstage : ∀ r id, s.ids[c.stream]? = some id →
      Stage id (s.finFlag c.stream) r c.pc (evs.flatMap (Event.sentBy j)) →
      Stage id (s'.finFlag c.stream) r pc
        (evs.flatMap (Event.sentBy j) ++ es.flatMap (Event.sentBy j))) :
    Staged (evs ++ es) s' := by
  have hj : j < s.calls.length := (List.getElem?_eq_some_iff.mp hget).1
  constructor
  · rw [List.flatMap_append, hmute, List.append_nil, h.count, hcalls, List.length_set]
  · intro k c' hc'
    rw [List.flatMap_append, List.flatMap_append, hmute, List.append_nil]
    rw [hcalls, List.getElem?_set] at hc'
    split at hc'
    · rename_i hjk
      subst hjk
      cases hc'
      obtain ⟨r, id, hinv, hid, hst⟩ := h.stage j c hget
      exact ⟨r, id, hinv, hids _ _ hid, hstage r id hid hst⟩
    · rename_i hjk
      obtain ⟨r, id, hinv, hid, hst⟩ := h.stage k c' hc'
      rw [hothers k (Ne.symm hjk), List.append_nil]
      exact ⟨r, id, hinv, hids _ _ hid, hst.mono (hflags _)⟩
  · intro k hk
    rw [hcalls, List.length_set] at hk
    rw [List.flatMap_append, h.future k hk, hothers k (by omega)]
    rfl

/-- A call does not take the flag of a stream back. -/
theorem flagKept_of_call {alt : Bool} {pc : CallPc H} {st : Stream H} {c : Channel H}
    {out : CallOutcome H} (h : callStep alt pc st c = some out) (hset : st.localFinSent = true) :
    out.stream.localFinSent = true := by
  cases callStep_fin h with
  | claim _ _ _ flag _ _ | settle _ flag _ _ => exact flag
  | idle _ flag _ _ | closed _ _ flag _ _ | redeem _ _ _ _ _ _ flag _ _
  | fin _ _ _ _ _ _ flag _ _ _ | plain _ _ _ _ _ _ flag _ _ _ => exact flag.trans hset

theorem staged_run (h : (connection H).Run guard evs s) : Staged evs s := by
  refine h.invariant (I := Staged) ⟨rfl, ?_, fun _ _ => rfl⟩ ?_
  · intro k c hc
    cases hc
  · intro evs es s s' a hrun _ hs ih
    have hids : ∀ (o : Nat) (id : UInt32), s.ids[o]? = some id → s'.ids[o]? = some id :=
      fun o id => ids_grow hs
    cases calls_step hrun hs with
    | call j alt c st out action get obj outcome state events =>
        subst events
        have hobjs : s'.objs = s.objs.set c.stream out.stream := by rw [state]
        refine ih.set get hids (fun o hset => ?_) (by rw [state]) (invocation_effects _ _ _)
          (fun k hk => sentBy_others (Ne.symm hk) _ _) fun r id hid hstage => ?_
        · by_cases ho : c.stream = o
          · rw [← ho, finFlag_of_get obj] at hset
            rw [← ho, finFlag_set obj hobjs]
            exact flagKept_of_call outcome hset
          · rw [finFlag_set_other ho hobjs]
            exact hset
        · cases (ids_of_get obj).symm.trans hid
          rw [sentBy_effects, finFlag_set obj hobjs]
          rw [finFlag_of_get obj] at hstage
          exact stage_step hstage outcome
    | cancel j c st st' pc get obj outcome state events =>
        subst events
        have hobjs : s'.objs = s.objs.set c.stream st' := by rw [state]
        have hflag : ∀ o, s'.finFlag o = s.finFlag o := fun o => by
          by_cases ho : c.stream = o
          · rw [← ho, finFlag_set obj hobjs, finFlag_of_get obj, (callCancel_fin outcome).1]
          · exact finFlag_set_other ho hobjs
        refine ih.set get hids (fun o hset => (hflag o).trans hset) (by rw [state]) rfl
          (fun _ _ => rfl) fun r id hid hstage => ?_
        cases (ids_of_get obj).symm.trans hid
        rw [hflag, List.flatMap_nil, List.append_nil]
        exact stage_cancel hstage outcome
    | invoke o r mem state events =>
        have hcalls : s'.calls = s.calls ++ [{ stream := o, pc := r.entry }] := by rw [state]
        have hinv : (evs ++ es).flatMap Event.invocation =
            evs.flatMap Event.invocation ++ [(o, r)] := by
          rw [events, List.flatMap_append]
          rfl
        have hsent : ∀ k, (evs ++ es).flatMap (Event.sentBy k) = evs.flatMap (Event.sentBy k) := by
          intro k
          rw [events, List.flatMap_append]
          exact List.append_nil _
        have hflag : ∀ o, s'.finFlag o = s.finFlag o := fun o => by rw [state]; rfl
        constructor
        · rw [hinv, hcalls, List.length_append, List.length_append, ih.count]
          rfl
        · intro k c hc
          rw [hinv, hsent]
          rw [hcalls] at hc
          rcases Nat.lt_or_ge k s.calls.length with hlt | hge
          · rw [List.getElem?_append_left hlt] at hc
            obtain ⟨r', id, hget, hid, hst⟩ := ih.stage k c hc
            refine ⟨r', id, ?_, hids _ _ hid, (hflag _).symm ▸ hst⟩
            rw [List.getElem?_append_left (by rw [ih.count]; exact hlt)]
            exact hget
          · rw [List.getElem?_append_right hge] at hc
            have hk : k = s.calls.length := by
              have := (List.getElem?_eq_some_iff.mp hc).1
              rw [List.length_singleton] at this
              omega
            subst hk
            rw [Nat.sub_self] at hc
            cases hc
            obtain ⟨id, hid⟩ := handed_id hrun mem
            refine ⟨r, id, ?_, hids _ _ hid, ?_⟩
            · rw [← ih.count, List.getElem?_append_right (Nat.le_refl _), Nat.sub_self]
              rfl
            · rw [ih.future _ (Nat.le_refl _)]
              exact stage_entry id _ r
        · intro k hk
          rw [hcalls, List.length_append] at hk
          rw [hsent]
          exact ih.future k (by omega)
    | other calls flag sent invoked =>
        have hinv : (evs ++ es).flatMap Event.invocation = evs.flatMap Event.invocation := by
          have hnone : es.flatMap Event.invocation = [] := by
            refine List.flatMap_eq_nil_iff.mpr fun e he => ?_
            cases e with
            | invoked o r => exact absurd he (invoked o r)
            | _ => rfl
          rw [List.flatMap_append, hnone, List.append_nil]
        have hsent : ∀ k, (evs ++ es).flatMap (Event.sentBy k) = evs.flatMap (Event.sentBy k) := by
          intro k
          have hnone : es.flatMap (Event.sentBy k) = [] := by
            refine List.flatMap_eq_nil_iff.mpr fun e he => ?_
            cases e with
            | enqueued src f =>
                cases src with
                | call j => exact absurd rfl ((sent _ f he).1 j)
                | _ => rfl
            | _ => rfl
          rw [List.flatMap_append, hnone, List.append_nil]
        constructor
        · rw [hinv, calls]
          exact ih.count
        · intro k c hc
          rw [calls] at hc
          obtain ⟨r, id, hget, hid, hst⟩ := ih.stage k c hc
          rw [hinv, hsent, flag]
          exact ⟨r, id, hget, hids _ _ hid, hst⟩
        · intro k hk
          rw [calls] at hk
          rw [hsent]
          exact ih.future k hk

/-! ## All or nothing -/

/-- What a call has sent, compared with what it was for and what it says, when
`local_fin_sent` of its stream is `flag`. -/
structure AllOrNothing (streamId : UInt32) (flag : Bool) (r : Request H) (pc : CallPc H)
    (sent : List (Frame H)) : Prop where
  /-- a call sends its own frame, at most once -/
  atMostOnce : sent = [] ∨ ∃ f, r.frame streamId = some f ∧ sent = [f]
  /-- a call that failed, was dropped or has to be polled again has sent nothing -/
  failure : ∀ result, pc = .returned result → result.isSuccess = false → sent = []
  /-- a call that succeeded has sent its frame, and `poll_write` has taken all of its
  buffer; a `poll_shutdown` may also have found `local_fin_sent` set -/
  success : ∀ result, pc = .returned result → result.isSuccess = true →
    (result = r.success ∧ ∃ f, r.frame streamId = some f ∧ sent = [f]) ∨
      r = .pollShutdown ∧ result = .ok ∧ sent = [] ∧ flag = true

theorem Stage.allOrNothing {streamId : UInt32} {flag : Bool} {r : Request H} {pc : CallPc H}
    {sent : List (Frame H)} (h : Stage streamId flag r pc sent) :
    AllOrNothing streamId flag r pc sent := by
  cases h with
  | before _ request =>
      refine ⟨.inl rfl, fun _ _ _ => rfl, fun result heq _ => ?_⟩
      rw [heq] at request
      cases request
  | finishing _ f place frame success empty =>
      refine ⟨.inr ⟨f, frame, rfl⟩, fun result heq _ => ?_, fun result heq _ => ?_⟩
      · rw [heq] at place
        cases place
      · rw [heq] at place
        cases place
  | done f frame =>
      refine ⟨.inr ⟨f, frame, rfl⟩, fun result heq hfail => ?_, fun result heq _ => ?_⟩
      · cases heq
        cases r with
        | _ => cases hfail
      · cases heq
        exact .inl ⟨rfl, f, frame, rfl⟩
  | failed result failure =>
      refine ⟨.inl rfl, fun _ _ _ => rfl, fun result' heq hok => ?_⟩
      cases heq
      cases failure.symm.trans hok
  | finished request set =>
      refine ⟨.inl rfl, fun _ _ _ => rfl, fun result heq _ => ?_⟩
      cases heq
      exact .inr ⟨request, rfl, rfl, set⟩

/-- **Calls are all or nothing.**  In every run, whatever else is going on, each call that a
handler has made has sent the frame it is for at most once, and nothing else: not at all if
it fails, is dropped or asks to be polled again, and once if it succeeds, where it is not a
`poll_shutdown` that has found `local_fin_sent` set. -/
theorem calls_allOrNothing (h : (connection H).Reached evs s) {k o : Nat} {r : Request H}
    (hk : (evs.flatMap Event.invocation)[k]? = some (o, r)) :
    ∃ c streamId, s.calls[k]? = some c ∧ c.stream = o ∧ s.ids[o]? = some streamId ∧
      AllOrNothing streamId (s.finFlag o) r c.pc (evs.flatMap (Event.sentBy k)) := by
  have hstaged := staged_run h
  have hlt : k < s.calls.length := by
    rw [← hstaged.count]
    exact (List.getElem?_eq_some_iff.mp hk).1
  obtain ⟨r', streamId, hinv, hid, hstage⟩ :=
    hstaged.stage k _ (List.getElem?_eq_getElem hlt)
  cases hk.symm.trans hinv
  exact ⟨_, streamId, List.getElem?_eq_getElem hlt, rfl, hid, hstage.allOrNothing⟩

/-- A write that waits for the reply and goes on once the handler has replied. -/
theorem calls_allOrNothing_write : ∃ evs s c streamId, (connection Unit).Reached evs s ∧
    evs.flatMap (Event.sentBy 0) = [.data { streamId := 1, flags := dataFlagFin, data := [1] }] ∧
    s.calls[0]? = some c ∧ c.stream = 0 ∧ s.ids[0]? = some streamId ∧
    AllOrNothing streamId (s.finFlag 0) (.writeData [1] true) c.pc
      (evs.flatMap (Event.sentBy 0)) := by
  obtain ⟨evs, s, h, hcheck⟩ := Machine.exists_run_of_exec (connection Unit) Machine.free
    (registers (plainSyn 1 0) ++ applies (.synStream (plainSyn 1 0)) ++
      [.invoke 0 (.writeData [1] true)] ++ calls 0 3 ++
      [.invoke 0 (.sendReply () false)] ++ calls 1 3 ++ calls 0 5)
    (fun evs _ => decide ((evs.flatMap Event.invocation)[0]? =
        some (0, (.writeData [1] true : Request Unit)) ∧
      evs.flatMap (Event.sentBy 0) =
        [.data { streamId := 1, flags := dataFlagFin, data := [1] }]))
    (by decide +kernel)
  obtain ⟨hcalled, hsent⟩ := of_decide_eq_true hcheck
  obtain ⟨c, streamId, hc, ho, hid, hall⟩ := calls_allOrNothing h hcalled
  exact ⟨evs, s, c, streamId, h, hsent, hc, ho, hid, hall⟩

end SpdyStream.Session
