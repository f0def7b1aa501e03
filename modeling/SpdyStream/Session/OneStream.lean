/-
  Session/OneStream.lean --- a step of the connection, seen from one stream.

  A stream changes by the calls on it, by the operations of its worker and by the
  teardown.  `StreamMove` lists the steps that do something to stream `o` and says
  what they do to its fields and calls; the last case is a step elsewhere.
-/
import SpdyStream.Session.Calls

set_option autoImplicit false

namespace SpdyStream.Session

open SpdyStream.Foundation
open SpdyStream.Framing

variable {H : Type}

/-- A step of the connection that was taken. -/
abbrev TakenStep (H : Type) : Type := Machine.Taken (State H) (Action H) (Event H)

/-- The frame that the read task has read. -/
def Event.frameRead : Event H → List (Frame H)
  | .read f => [f]
  | _ => []

/-! ## What is seen of a stream -/

/-- Where the `j`-th call is, if it is a call on stream `o`. -/
def State.pcOf (o j : Nat) (s : State H) : Option (CallPc H) :=
  match s.calls[j]? with
  | none => none
  | some c => if c.stream = o then some c.pc else none

theorem pcOf_eq_some {s : State H} {o j : Nat} {pc : CallPc H} :
    s.pcOf o j = some pc ↔ s.calls[j]? = some { stream := o, pc := pc } := by
  unfold State.pcOf
  cases s.calls[j]? with
  | none => simp
  | some c =>
      obtain ⟨o', pc'⟩ := c
      by_cases ho : o' = o
      · simp [ho]
      · simp [ho]

theorem pcOf_of_get {s : State H} {j : Nat} {c : Call H} (h : s.calls[j]? = some c) :
    s.pcOf c.stream j = some c.pc := by
  rw [State.pcOf, h]
  exact if_pos rfl

theorem pcOf_congr {s s' : State H} (h : s'.calls = s.calls) (o j : Nat) :
    s'.pcOf o j = s.pcOf o j := by
  rw [State.pcOf, State.pcOf, h]

/-- A call is at another place. -/
theorem pcOf_set {s s' : State H} {j : Nat} {c : Call H} {pc : CallPc H}
    (hc : s.calls[j]? = some c) (hs' : s'.calls = s.calls.set j { c with pc := pc }) (o i : Nat) :
    s'.pcOf o i = if c.stream = o ∧ i = j then some pc else s.pcOf o i := by
  have hj := (List.getElem?_eq_some_iff.mp hc).1
  rw [State.pcOf, hs', List.getElem?_set]
  by_cases hi : j = i
  · subst hi
    by_cases ho : c.stream = o
    · simp [hj, ho]
    · rw [if_pos rfl, if_pos hj, if_neg (fun h => ho h.1), State.pcOf, hc]
      exact (if_neg ho).trans (if_neg ho).symm
  · have hne : ¬ (c.stream = o ∧ i = j) := fun h => hi h.2.symm
    rw [if_neg hi, if_neg hne, State.pcOf]

theorem get_concat_other {α : Type} {l : List α} {i : Nat} (x : α) (h : i ≠ l.length) :
    (l ++ [x])[i]? = l[i]? := by
  rcases Nat.lt_or_gt_of_ne h with hlt | hgt
  · rw [List.getElem?_append_left hlt]
  · have hbeyond : (l ++ [x]).length ≤ i := by
      rw [List.length_append]
      exact hgt
    rw [List.getElem?_eq_none hbeyond, List.getElem?_eq_none (Nat.le_of_lt hgt)]

/-- A call is made. -/
theorem pcOf_append {s s' : State H} {c : Call H} (hs' : s'.calls = s.calls ++ [c]) (o i : Nat) :
    s'.pcOf o i = if c.stream = o ∧ i = s.calls.length then some c.pc else s.pcOf o i := by
  rw [State.pcOf, hs']
  by_cases hi : i = s.calls.length
  · subst hi
    by_cases ho : c.stream = o
    · simp [ho]
    · simp [ho, State.pcOf]
  · rw [get_concat_other _ hi, if_neg fun h => hi h.2, State.pcOf]

/-- A call on stream `o` has come to a place with the property `p`. -/
def State.anyCall (o : Nat) (p : CallPc H → Bool) (s : State H) : Bool :=
  s.calls.any fun c => decide (c.stream = o) && p c.pc

theorem anyCall_iff {s : State H} {o : Nat} {p : CallPc H → Bool} :
    s.anyCall o p = true ↔ ∃ j pc, s.pcOf o j = some pc ∧ p pc = true := by
  rw [State.anyCall, List.any_eq_true]
  constructor
  · rintro ⟨c, hc, hp⟩
    obtain ⟨j, hj⟩ := List.getElem?_of_mem hc
    rw [Bool.and_eq_true, decide_eq_true_eq] at hp
    obtain ⟨rfl, hp⟩ := hp
    exact ⟨j, c.pc, pcOf_of_get hj, hp⟩
  · rintro ⟨j, pc, hpc, hp⟩
    exact ⟨_, List.mem_of_getElem? (pcOf_eq_some.mp hpc), by simp [hp]⟩

/-- What an operation of a worker does to the stream. -/
def WorkerOp.onStream : WorkerOp → Stream H → Stream H
  | .spawnHandler | .removeStream => id
  | .pushData data => fun st => st.pushData data
  | .closeRemote => Stream.closeRemote
  | .storeReplied => fun st => { st with replied := true }
  | .notifyWaiters => fun st => { st with notifies := st.notifies + 1 }

/-- What is seen of an operation besides that it is done. -/
def WorkerOp.shown (o : Nat) (st : Stream H) (found : Option Nat) : WorkerOp → List (Event H)
  | .pushData data => [.pushed o data (decide (st.dataQueue.length < dataCapacity))]
  | .removeStream => [.removed o found]
  | _ => []

/-- The event shows something done to stream `o`. -/
def Event.concerns (o : Nat) : Event H → Bool
  | .worked o' _ | .pushed o' _ _ | .delivered o' _ => o' = o
  | _ => false

/-- The teardown closes stream `o`. -/
def State.sweeps (o : Nat) (s : State H) : Action H → Bool
  | .readTask pick =>
      match s.readTask with
      | .sweep rest => rest[pick]? = some o
      | _ => false
  | _ => false

/-! ## Steps -/

/-- What a step does to stream `o`. -/
inductive StreamMove (o : Nat) (s : State H) (a : Action H) (s' : State H)
    (es : List (Event H)) : Prop where
  /-- a call on it goes on -/
  | call (j : Nat) (alt : Bool) (pc : CallPc H) (st : Stream H) (out : CallOutcome H)
      (action : a = .call j alt) (get : s.pcOf o j = some pc) (obj : s.objs[o]? = some st)
      (outcome : callStep alt pc st s.writeChannel = some out)
      (now : s'.objs[o]? = some out.stream)
      (calls : ∀ i, s'.pcOf o i = if i = j then some out.pc else s.pcOf o i)
      (events : es = out.effects.map (callEvent j o))
  /-- a call on it is dropped -/
  | cancel (j : Nat) (pc pc' : CallPc H) (st st' : Stream H) (action : a = .cancel j)
      (get : s.pcOf o j = some pc) (obj : s.objs[o]? = some st)
      (outcome : callCancel pc st = some (pc', st')) (now : s'.objs[o]? = some st')
      (calls : ∀ i, s'.pcOf o i = if i = j then some pc' else s.pcOf o i)
      (events : es = [])
  /-- a call is made on it -/
  | invoke (j : Nat) (r : Request H) (action : a = .invoke o r) (fresh : s.pcOf o j = none)
      (now : s'.objs[o]? = s.objs[o]?)
      (calls : ∀ i, s'.pcOf o i = if i = j then some r.entry else s.pcOf o i)
      (events : es = [.invoked o r])
  /-- its worker does an operation -/
  | work (i : Fin nWorkers) (op : WorkerOp) (rest : List WorkerOp) (st : Stream H)
      (action : a = .workerRun i) (stream : (s.workers i).stream = o)
      (todo : (s.workers i).todo = op :: rest) (obj : s.objs[o]? = some st)
      (now : s'.objs[o]? = some (op.onStream st)) (calls : ∀ j, s'.pcOf o j = s.pcOf o j)
      (events : es = .worked o op :: op.shown o st (s.streams.lookup st.streamId))
  /-- the teardown closes it -/
  | sweep (st : Stream H) (sweeps : s.sweeps o a = true) (obj : s.objs[o]? = some st)
      (now : s'.objs[o]? = some st.closeRemote) (calls : ∀ j, s'.pcOf o j = s.pcOf o j)
      (events : es = [])
  /-- it is made -/
  | make (f : SynStreamFrame H) (pc : s.readTask = .register f) (before : s.objs[o]? = none)
      (now : s'.objs[o]? = some (Stream.new f.streamId f.headers f.priority))
      (calls : ∀ j, s'.pcOf o j = s.pcOf o j) (events : es = [.accepted o f])
  | other (same : s'.objs[o]? = s.objs[o]?) (calls : ∀ j, s'.pcOf o j = s.pcOf o j)
      (unswept : s.sweeps o a = true → s.objs[o]? = none)
      (silent : ∀ e ∈ es, e.concerns o = false)
      (sent : ∀ src f, .enqueued src f ∈ es → isNotice f = true ∨ s.ids[o]? ≠ some f.target)

theorem runOp_stream {s s' : State H} {o : Nat} {op : WorkerOp} {es : List (Event H)}
    (h : s.runOp o op = some (s', es)) :
    s'.objs = s.objs.modify o op.onStream ∧ s'.calls = s.calls ∧
      (∀ st, s.objs[o]? = some st → es = op.shown o st (s.streams.lookup st.streamId)) ∧
      (∀ e ∈ es, (∀ o', e.concerns o' = true → o' = o) ∧ ∀ src f, e ≠ .enqueued src f) := by
  cases op with
  | spawnHandler =>
      cases h
      exact ⟨(List.modify_id _ _).symm, rfl, fun _ _ => rfl, by simp⟩
  | closeRemote | storeReplied | notifyWaiters =>
      cases h
      exact ⟨rfl, rfl, fun _ _ => rfl, by simp⟩
  | pushData data =>
      simp only [State.runOp] at h
      split at h
      · cases h
      · rename_i st hst
        cases h
        refine ⟨rfl, rfl, fun st' hst' => ?_, fun e he => ?_⟩
        · rw [hst] at hst'
          cases hst'
          rfl
        · rw [List.mem_singleton.mp he]
          exact ⟨fun o' ho' => (of_decide_eq_true ho').symm, by simp⟩
  | removeStream =>
      simp only [State.runOp] at h
      split at h
      · cases h
      · rename_i st hst
        split at h
        · cases h
        · cases h
          refine ⟨(List.modify_id _ _).symm, rfl, fun st' hst' => ?_, fun e he => ?_⟩
          · rw [hst] at hst'
            cases hst'
            rfl
          · rw [List.mem_singleton.mp he]
            exact ⟨fun o' ho' => absurd ho' Bool.false_ne_true, by simp⟩

theorem get_modify_self {α : Type} {l : List α} {i : Nat} {x : α} (f : α → α)
    (h : l[i]? = some x) : (l.modify i f)[i]? = some (f x) := by
  rw [List.getElem?_modify, h]
  simp

theorem get_modify_other {α : Type} (l : List α) {i j : Nat} (f : α → α) (h : i ≠ j) :
    (l.modify i f)[j]? = l[j]? := by
  rw [List.getElem?_modify]
  simp [h]

/-- The streams after a step of the read task. -/
theorem readStep_objs {s s' : State H} {pick : Nat} {es : List (Event H)}
    (h : s.readStep pick = some (s', es)) :
    (s'.objs = s.objs ∧ ∀ o, s.sweeps o (.readTask pick) = false) ∨
    (∃ f, s.readTask = .register f ∧
      s'.objs = s.objs ++ [Stream.new f.streamId f.headers f.priority] ∧
      es = [.accepted s.objs.length f]) ∨
    ∃ rest o, s.readTask = .sweep rest ∧ rest[pick]? = some o ∧
      s'.objs = s.objs.modify o Stream.closeRemote ∧ es = [] := by
  cases task_step h with
  | routes holds move =>
      cases move with
      | plain _ before _ _ _ => cases holds.symm.trans before
      | answer _ _ _ pc _ _ => cases holds.symm.trans (ReadTask.holdsFrame_of_answer pc)
      | accept f pc _ => exact .inr (.inl ⟨f, pc, rfl, rfl⟩)
      | stale _ pc _ | checked _ pc _ | refused _ pc _ | passed _ pc _ | taken _ pc _
      | publish _ _ pc | found _ _ pc _ | missed _ pc _ | deliver _ _ pc _ =>
          exact .inl ⟨rfl, fun _ => by rw [State.sweeps, pc]⟩
  | inUse _ pc send | responds _ pc send =>
      obtain ⟨⟨s₁, es₁⟩, hsend, hr⟩ := Option.map_eq_some_iff.mp send
      obtain ⟨c, rfl, -, -⟩ := sendIgnoring_eq hsend
      cases hr
      exact .inl ⟨rfl, fun _ => by rw [State.sweeps, pc]⟩
  | resolves id' pc =>
      obtain ⟨pingMap, pings, heq⟩ := signalPing_eq s id' .fired
      rw [heq]
      exact .inl ⟨rfl, fun _ => by rw [State.sweeps, pc]⟩
  | sweeps rest o pc get => exact .inr (.inr ⟨rest, o, pc, get, rfl, rfl⟩)
  | swept pc => exact .inl ⟨rfl, fun _ => by simp [State.sweeps, pc]⟩
  | goesAway pc | closes pc | locks pc | ends pc =>
      exact .inl ⟨rfl, fun _ => by rw [State.sweeps, pc]⟩

/-- The stream a call sends on has the id of the frame. -/
theorem callEvents_elsewhere {s : State H} (hreg : Registry s) {o j : Nat} {alt : Bool} {c : Call H}
    {st : Stream H} {out : CallOutcome H} (ho : c.stream ≠ o) (hst : s.objs[c.stream]? = some st)
    (hout : callStep alt c.pc st s.writeChannel = some out) :
    (∀ e ∈ out.effects.map (callEvent j c.stream), e.concerns o = false) ∧
    ∀ src f, .enqueued src f ∈ out.effects.map (callEvent j c.stream) →
      isNotice f = true ∨ s.ids[o]? ≠ some f.target := by
  constructor
  · intro e he
    obtain ⟨eff, -, rfl⟩ := List.mem_map.mp he
    cases eff with
    | enqueued f => rfl
    | delivered d => exact decide_eq_false ho
  · intro src f he
    obtain ⟨eff, heff, heq⟩ := List.mem_map.mp he
    cases eff with
    | delivered d => cases heq
    | enqueued g =>
        cases heq
        refine .inr fun hid => ho ?_
        rw [sends_target ((callStep_keeps hout).sent f heff).1] at hid
        exact hreg.unique (ids_of_get hst) hid

/-- A step of the read task makes no call and shows no operation on a stream. -/
theorem readMove_elsewhere {s s' : State H} {es : List (Event H)}
    (hanswer : ∀ f, s.readTask.answer = some f → isNotice f = true) (hmove : ReadMove s s' es) :
    s'.calls = s.calls ∧ (∀ o, ∀ e ∈ es, e.concerns o = false) ∧
      ∀ src f, .enqueued src f ∈ es → isNotice f = true := by
  cases hmove with
  | plain still before next loop mute => exact ⟨still.calls, by simp, by simp⟩
  | answer f c es pc channel events =>
      refine ⟨rfl, fun o e he => ?_, fun src g hg => ?_⟩
      · rcases events with ⟨rfl, -⟩ | rfl
        · cases he
        · rw [List.mem_singleton.mp he]
          rfl
      · rcases events with ⟨rfl, -⟩ | rfl
        · cases hg
        · cases List.mem_singleton.mp hg
          exact hanswer f pc
  | _ => exact ⟨rfl, by simp [Event.concerns], by simp⟩

theorem readTask_stream {s s' : State H} {pick : Nat} {es : List (Event H)}
    (hanswer : ∀ f, s.readTask.answer = some f → isNotice f = true)
    (h : s.readStep pick = some (s', es)) (o : Nat) :
    StreamMove o s (.readTask pick) s' es := by
  obtain ⟨hcalls, hsilent, hsent⟩ := readMove_elsewhere hanswer (readStep_move h)
  have hpcs := pcOf_congr hcalls o
  have helse : s'.objs[o]? = s.objs[o]? →
      (s.sweeps o (.readTask pick) = true → s.objs[o]? = none) →
      StreamMove o s (.readTask pick) s' es := fun hsame hunswept =>
    .other hsame hpcs hunswept (hsilent o) fun src f hf => .inl (hsent src f hf)
  rcases readStep_objs h with ⟨hobjs, hunswept⟩ | ⟨f, hpc, hobjs, hes⟩ |
    ⟨rest, o', hpc, hget, hobjs, hes⟩
  · exact helse (by rw [hobjs]) fun hsweep => by rw [hunswept o] at hsweep; cases hsweep
  · have hunswept : s.sweeps o (.readTask pick) = false := by rw [State.sweeps, hpc]
    have hnot : s.sweeps o (.readTask pick) = true → s.objs[o]? = none := fun hsweep => by
      rw [hunswept] at hsweep
      cases hsweep
    by_cases ho : o = s.objs.length
    · subst ho
      exact .make f hpc (List.getElem?_eq_none (Nat.le_refl _))
        (by rw [hobjs, List.getElem?_concat_length]) hpcs hes
    · exact helse (by rw [hobjs, get_concat_other _ ho]) hnot
  · by_cases ho : o' = o
    · subst ho
      cases hst : s.objs[o']? with
      | none => exact helse (by rw [hobjs, List.getElem?_modify, hst]; rfl) fun _ => hst
      | some st =>
          exact .sweep st (by simp [State.sweeps, hpc, hget]) hst
            (by rw [hobjs]; exact get_modify_self _ hst) hpcs hes
    · refine helse (by rw [hobjs, get_modify_other _ _ ho]) fun hsweep => ?_
      simp [State.sweeps, hpc, hget, ho] at hsweep

theorem workerRun_stream {s s' : State H} {i : Fin nWorkers} {es : List (Event H)}
    (hsound : (s.workers i).Sound s.ids i) (h : s.workerRun i = some (s', es)) (o : Nat) :
    StreamMove o s (.workerRun i) s' es := by
  unfold State.workerRun at h
  simp only [] at h
  split at h
  · cases h
  · rename_i op rest htodo
    obtain ⟨⟨s₁, es₁⟩, hop, hr⟩ := Option.map_eq_some_iff.mp h
    cases hr
    obtain ⟨hobjs, hcalls, hshown, hplain⟩ := runOp_stream hop
    by_cases ho : (s.workers i).stream = o
    · subst ho
      obtain ⟨k, hid, -⟩ := hsound.todo (by rw [htodo]; exact List.cons_ne_nil _ _)
      obtain ⟨st, hst, -⟩ := Option.map_eq_some_iff.mp (List.getElem?_map ▸ hid)
      refine .work i op rest st rfl rfl htodo hst ?_ (pcOf_congr hcalls _) ?_
      · rw [hobjs]
        exact get_modify_self _ hst
      · exact congrArg _ (hshown st hst)
    · refine .other ?_ (pcOf_congr hcalls o) (fun hsweeps => absurd hsweeps Bool.false_ne_true)
        (fun e he => ?_) fun src f hf => ?_
      · rw [hobjs, get_modify_other _ _ ho]
      · rcases List.mem_cons.mp he with rfl | he
        · exact decide_eq_false ho
        · exact eq_false_of_ne_true fun hc => ho ((hplain e he).1 o hc).symm
      · rcases List.mem_cons.mp hf with heq | hf
        · cases heq
        · exact absurd rfl ((hplain _ hf).2 src f)

variable {guard : List (Event H) → State H → Action H → Prop} {evs : List (Event H)} {s : State H}

/-- There is no call on a stream that has not been made. -/
theorem pcOf_none (h : (connection H).Run guard evs s) {o : Nat} (ho : s.objs[o]? = none)
    (j : Nat) : s.pcOf o j = none := by
  cases hpc : s.pcOf o j with
  | none => rfl
  | some pc =>
      obtain ⟨k, hk⟩ := call_id h (pcOf_eq_some.mp hpc)
      rw [State.ids, List.getElem?_map, ho] at hk
      cases hk

/-- A step that leaves the streams and the calls, and sends notices only. -/
theorem streamMove_other {s' : State H} {a : Action H} {es : List (Event H)} {o : Nat}
    (hobjs : s'.objs = s.objs) (hcalls : s'.calls = s.calls) (hunswept : s.sweeps o a = false)
    (hes : ∀ e ∈ es, e.concerns o = false)
    (hsent : ∀ src f, .enqueued src f ∈ es → isNotice f = true) : StreamMove o s a s' es :=
  .other (by rw [hobjs]) (pcOf_congr hcalls o)
    (fun hsweeps => absurd (hunswept.symm.trans hsweeps) Bool.false_ne_true) hes
    fun src f hf => .inl (hsent src f hf)

theorem aside_stream (hreg : Registry s) {s' : State H} {a : Action H} {es : List (Event H)}
    (ha : a.isAside = true) (h : AsideKind s a s' es) (o : Nat) : StreamMove o s a s' es := by
  cases h with
  | call k alt c st out action get obj outcome state events =>
      have hcalls : s'.calls = s.calls.set k { c with pc := out.pc } := by rw [state]
      have hpcs := pcOf_set get hcalls o
      by_cases ho : c.stream = o
      · subst ho
        refine .call k alt c.pc st out action (pcOf_of_get get) obj outcome ?_ ?_ events
        · rw [state]
          exact List.getElem?_set_self (List.getElem?_eq_some_iff.mp obj).1
        · simpa using hpcs
      · obtain ⟨hsilent, hsent⟩ := callEvents_elsewhere (j := k) hreg ho obj outcome
        rw [← events] at hsilent hsent
        refine .other ?_ (by simpa [ho] using hpcs) (by simp [action, State.sweeps]) hsilent hsent
        rw [state]
        exact List.getElem?_set_ne ho
  | cancel k c st st' pc action get obj outcome state events =>
      have hcalls : s'.calls = s.calls.set k { c with pc := pc } := by rw [state]
      have hpcs := pcOf_set get hcalls o
      by_cases ho : c.stream = o
      · subst ho
        refine .cancel k c.pc pc st st' action (pcOf_of_get get) obj outcome ?_ ?_ events
        · rw [state]
          exact List.getElem?_set_self (List.getElem?_eq_some_iff.mp obj).1
        · simpa using hpcs
      · refine .other ?_ (by simpa [ho] using hpcs) (by simp [action, State.sweeps])
          (by simp [events]) (by simp [events])
        rw [state]
        exact List.getElem?_set_ne ho
  | invoke o' r action mem state events =>
      have hcalls : s'.calls = s.calls ++ [{ stream := o', pc := r.entry }] := by rw [state]
      have hpcs := pcOf_append hcalls o
      by_cases ho : o' = o
      · subst ho
        have hfresh : s.pcOf o' s.calls.length = none := by
          rw [State.pcOf, List.getElem?_eq_none (Nat.le_refl _)]
        exact .invoke s.calls.length r action hfresh (by rw [state]) (by simpa using hpcs) events
      · exact .other (by rw [state]) (by simpa [ho] using hpcs) (by simp [action, State.sweeps])
          (by simp [events, Event.concerns]) (by simp [events])
  | apart h =>
      have hunswept : s.sweeps o a = false := by
        cases a with
        | readTask pick => cases ha
        | _ => rfl
      refine streamMove_other h.objs h.calls hunswept (fun e he => ?_) fun src f hf => ?_
      · rcases h.events e he with ⟨k, g, rfl⟩ | ⟨k, p, rfl⟩
        · rfl
        · rfl
      · rcases h.events _ hf with ⟨k, g, heq⟩ | ⟨k, p, heq⟩
        · cases heq
          rfl
        · cases heq
          rfl

theorem stream_step (hrun : (connection H).Run guard evs s) {s' : State H} {a : Action H}
    {es : List (Event H)} (hs : s.step a = some (s', es)) (o : Nat) : StreamMove o s a s' es := by
  cases a with
  | readTask pick => exact readTask_stream (fun _ => answer_isNotice hrun) hs o
  | workerRun i => exact workerRun_stream (workers_sound hrun i) hs o
  | read f =>
      simp only [State.step, State.readFrame] at hs
      split at hs
      · cases hs
        refine streamMove_other rfl rfl rfl (fun e he => ?_) fun src g hg => ?_
        · rcases List.mem_cons.mp he with rfl | he
          · rfl
          · obtain ⟨_, -, -, rfl⟩ := mem_rejectedAtOnce he
            rfl
        · rcases List.mem_cons.mp hg with heq | hg
          · cases heq
          · obtain ⟨_, -, -, heq⟩ := mem_rejectedAtOnce hg
            cases heq
      · cases hs
  | readFail | readPanic =>
      simp only [State.step, State.readEnds] at hs
      split at hs
      · cases hs
        exact streamMove_other rfl rfl rfl (by simp) (by simp)
      · cases hs
  | workerRecv i =>
      simp only [State.step, State.workerRecv] at hs
      split at hs
      · cases hs
        exact streamMove_other rfl rfl rfl (by simp [Event.concerns]) (by simp)
      · cases hs
  | _ => exact aside_stream (registry_run hrun) rfl (aside_step rfl hs) o

/-- A stream that was not there before a step was registered by it. -/
theorem id_before (hrun : (connection H).Run guard evs s) {s' : State H} {a : Action H}
    {es : List (Event H)} (hs : s.step a = some (s', es)) {o : Nat} {k : UInt32}
    (hk : s'.ids[o]? = some k) : s.ids[o]? = some k ∨ ∃ f, s.readTask = .register f := by
  have hold : ∀ st, s.objs[o]? = some st → s.ids[o]? = some k := fun st hst => by
    have hid := ids_of_get hst
    rw [ids_grow hs hid] at hk
    rw [hid, hk]
  cases stream_step hrun hs o with
  | call j alt pc st out action get obj outcome now calls events => exact .inl (hold st obj)
  | cancel j pc pc' st st' action get obj outcome now calls events => exact .inl (hold st obj)
  | work i op rest st action stream todo obj now calls events => exact .inl (hold st obj)
  | sweep st sweeps obj now calls events => exact .inl (hold st obj)
  | make f pc before now calls events => exact .inr ⟨f, pc⟩
  | invoke j r action fresh now calls events =>
      rw [State.ids, List.getElem?_map, now, ← List.getElem?_map] at hk
      exact .inl hk
  | other same calls unswept silent sent =>
      rw [State.ids, List.getElem?_map, same, ← List.getElem?_map] at hk
      exact .inl hk

end SpdyStream.Session
