/-
  Session/Calls.lean --- the calls of handlers, and the frames they send.

  Calls are made on streams that were handed to a handler, so they have an id.
  Replies and DATA frames come from calls alone: what the read task sends are
  resets and echoes, and `close` and `ping` send frames of the connection.
-/
import SpdyStream.Session.GoAway

set_option autoImplicit false

namespace SpdyStream.Session

open SpdyStream.Foundation
open SpdyStream.Framing

variable {H : Type}

/-! ## Frames of the server on a stream -/

/-- A SYN_REPLY or a DATA frame. -/
def isResponse : Frame H → Bool
  | .synReply _ | .data _ => true
  | _ => false

/-- A reset, a PING or a GOAWAY. -/
def isNotice : Frame H → Bool
  | .rstStream _ | .ping _ | .goAway _ => true
  | _ => false

theorem notice_plain {f : Frame H} (h : isNotice f = true) :
    isResponse f = false ∧ carriesFin f = false := by
  cases f with
  | rstStream _ | ping _ | goAway _ => exact ⟨rfl, rfl⟩
  | _ => cases h

/-- The frames with id `k` that the write channel has accepted. -/
def Event.sentOn (k : UInt32) : Event H → List (Frame H)
  | .enqueued _ f => if f.target = k then [f] else []
  | _ => []

/-- `local_fin_sent` of stream `o`. -/
def State.finFlag (o : Nat) (s : State H) : Bool :=
  match s.objs[o]? with
  | none => false
  | some st => st.localFinSent

theorem finFlag_eq (s : State H) (o : Nat) :
    s.finFlag o = ((s.objs.map Stream.localFinSent)[o]?).getD false := by
  rw [State.finFlag, List.getElem?_map]
  cases s.objs[o]? with
  | none => rfl
  | some st => rfl

theorem finFlag_congr {s s' : State H}
    (h : s'.objs.map Stream.localFinSent = s.objs.map Stream.localFinSent) (o : Nat) :
    s'.finFlag o = s.finFlag o := by
  rw [finFlag_eq, finFlag_eq, h]

theorem finFlag_of_get {s : State H} {o : Nat} {st : Stream H} (h : s.objs[o]? = some st) :
    s.finFlag o = st.localFinSent := by
  rw [State.finFlag, h]

theorem ids_of_get {s : State H} {o : Nat} {st : Stream H} (h : s.objs[o]? = some st) :
    s.ids[o]? = some st.streamId := by
  rw [State.ids, List.getElem?_map, h]
  rfl

variable {guard : List (Event H) → State H → Action H → Prop} {evs : List (Event H)} {s : State H}

/-- The read task answers with resets and echoes. -/
theorem answer_isNotice (h : (connection H).Run guard evs s) {f : Frame H}
    (hf : s.readTask.answer = some f) : isNotice f = true := by
  refine h.invariant (I := fun _ s => ∀ f, s.readTask.answer = some f → isNotice f = true)
    ?_ ?_ f hf
  · intro f hf
    cases hf
  · intro evs es s s' a _ _ hs ih f hf
    cases step_kind hs with
    | aside ha kind =>
        rw [ha.readTask] at hf
        exact ih f hf
    | read g pc state events =>
        rw [state] at hf
        have hf : (dispatch g).answer = some f := hf
        cases g with
        | synStream sf =>
            simp only [dispatch] at hf
            split at hf
            · cases hf
              rfl
            · cases hf
        | ping p =>
            simp only [dispatch] at hf
            split at hf
            · cases hf
              rfl
            · cases hf
        | _ => cases hf
    | move hmove =>
        cases hmove with
        | plain still before next loop mute =>
            rw [mute.2] at hf
            cases hf
        | missed g pc miss =>
            have hf : (missing g).answer = some f := hf
            cases g with
            | data df =>
                cases hf
                rfl
            | _ => cases hf
        | stale g pc _ | refused g pc _ | taken g pc _ =>
            cases hf
            rfl
        | _ => cases hf
    | worker i hmove action =>
        cases hmove with
        | _ => exact ih f hf

/-! ## Steps and calls -/

/-- What a step does to the calls. -/
inductive CallsMove (s : State H) (a : Action H) (s' : State H) (es : List (Event H)) : Prop where
  | call (k : Nat) (alt : Bool) (c : Call H) (st : Stream H) (out : CallOutcome H)
      (action : a = .call k alt) (get : s.calls[k]? = some c) (obj : s.objs[c.stream]? = some st)
      (outcome : callStep alt c.pc st s.writeChannel = some out)
      (state : s' = { s with
        calls := s.calls.set k { c with pc := out.pc }
        objs := s.objs.set c.stream out.stream
        writeChannel := out.channel })
      (events : es = out.effects.map (callEvent k c.stream))
  | cancel (k : Nat) (c : Call H) (st st' : Stream H) (pc : CallPc H)
      (get : s.calls[k]? = some c) (obj : s.objs[c.stream]? = some st)
      (outcome : callCancel c.pc st = some (pc, st'))
      (state : s' = { s with
        calls := s.calls.set k { c with pc := pc }
        objs := s.objs.set c.stream st' })
      (events : es = [])
  | invoke (o : Nat) (r : Request H) (mem : o ∈ s.handed)
      (state : s' = { s with calls := s.calls ++ [{ stream := o, pc := r.entry }] })
      (events : es = [.invoked o r])
  | other (calls : s'.calls = s.calls) (flag : ∀ o, s'.finFlag o = s.finFlag o)
      (sent : ∀ src f, .enqueued src f ∈ es → (∀ k, src ≠ .call k) ∧ isNotice f = true)
      (invoked : ∀ o r, .invoked o r ∉ es)

theorem readMove_calls {s s' : State H} {a : Action H} {es : List (Event H)}
    (hanswer : ∀ f, s.readTask.answer = some f → isNotice f = true)
    (hmove : ReadMove s s' es) : CallsMove s a s' es := by
  cases hmove with
  | plain still before next loop mute =>
      have hflag := congrArg (List.map fun p => p.2.1) still.ownSide
      rw [List.map_map, List.map_map] at hflag
      exact .other still.calls (finFlag_congr hflag) (by simp) (by simp)
  | answer f c es pc channel events =>
      refine .other rfl (fun _ => rfl) (fun src f' hf' => ?_) fun o r hr => ?_
      · rcases events with ⟨rfl, -⟩ | rfl
        · cases hf'
        · cases List.mem_singleton.mp hf'
          exact ⟨by simp, hanswer f pc⟩
      · rcases events with ⟨rfl, -⟩ | rfl
        · cases hr
        · cases List.mem_singleton.mp hr
  | accept f pc notMem =>
      refine .other rfl (fun o => ?_) (by simp) (by simp)
      rw [finFlag_eq, finFlag_eq, List.map_append]
      exact getD_concat_default _ false o
  | _ => exact .other rfl (fun _ => rfl) (by simp) (by simp)

theorem workerMove_calls {s s' : State H} {a : Action H} {i : Fin nWorkers}
    {es : List (Event H)} (hmove : WorkerMove s i s' es) : CallsMove s a s' es := by
  cases hmove with
  | push data rest st todo obj =>
      have hfin : ∀ st : Stream H, (st.pushData data).localFinSent = st.localFinSent := fun st => by
        unfold Stream.pushData
        split
        · rfl
        · rfl
      exact .other rfl (finFlag_congr (map_modify_eq hfin _ _)) (by simp) (by simp)
  | close rest todo =>
      have hfin : (s.objs.modify (s.workers i).stream Stream.closeRemote).map
          Stream.localFinSent = s.objs.map Stream.localFinSent :=
        map_modify_eq (f := Stream.closeRemote) (fun _ => rfl) _ _
      exact .other rfl (finFlag_congr hfin) (by simp) (by simp)
  | reply op rest g todo isReply side queue fin =>
      exact .other rfl (finFlag_congr (map_modify_eq fin _ _)) (by simp) (by simp)
  | _ => exact .other rfl (fun _ => rfl) (by simp) (by simp)

theorem calls_step (hrun : (connection H).Run guard evs s) {s' : State H} {a : Action H}
    {es : List (Event H)} (hs : s.step a = some (s', es)) : CallsMove s a s' es := by
  cases step_kind hs with
  | aside ha kind =>
      cases kind with
      | call k alt c st out action get obj outcome state events =>
          exact .call k alt c st out action get obj outcome state events
      | cancel k c st st' pc action get obj outcome state events =>
          exact .cancel k c st st' pc get obj outcome state events
      | invoke o r action mem state events => exact .invoke o r mem state events
      | apart h =>
          refine .other h.calls (finFlag_congr (by rw [h.objs])) (fun src f hf => ?_)
            fun o r hr => ?_
          · rcases h.events _ hf with ⟨k, g, heq⟩ | ⟨k, p, heq⟩
            · cases heq
              exact ⟨by simp, rfl⟩
            · cases heq
              exact ⟨by simp, rfl⟩
          · rcases h.events _ hr with ⟨k, g, heq⟩ | ⟨k, p, heq⟩
            · cases heq
            · cases heq
  | read f pc state events =>
      refine .other (by rw [state]) (fun _ => by rw [state]; rfl) (fun src g hg => ?_)
        fun o r hr => ?_
      · rw [events] at hg
        rcases List.mem_cons.mp hg with heq | hmem
        · cases heq
        · obtain ⟨_, -, -, heq⟩ := mem_rejectedAtOnce hmem
          cases heq
      · rw [events] at hr
        rcases List.mem_cons.mp hr with heq | hmem
        · cases heq
        · obtain ⟨_, -, -, heq⟩ := mem_rejectedAtOnce hmem
          cases heq
  | move hmove => exact readMove_calls (fun _ => answer_isNotice hrun) hmove
  | worker i hmove action => exact workerMove_calls hmove

/-! ## Calls have streams -/

theorem handed_step {s s' : State H} {a : Action H} {es : List (Event H)}
    (hs : s.step a = some (s', es)) :
    ∀ o ∈ s'.handed, o ∈ s.handed ∨ ∃ i, (s.workers i).todo ≠ [] ∧ (s.workers i).stream = o := by
  intro o ho
  cases step_kind hs with
  | aside ha kind => exact .inl (ha.handed ▸ ho)
  | read f pc state events =>
      rw [state] at ho
      exact .inl ho
  | move hmove =>
      cases hmove with
      | plain still before next loop mute => exact .inl (still.handed ▸ ho)
      | _ => exact .inl ho
  | worker i hmove action =>
      cases hmove with
      | spawn rest todo =>
          rcases List.mem_append.mp ho with hold | hnew
          · exact .inl hold
          · refine .inr ⟨i, ?_, (List.mem_singleton.mp hnew).symm⟩
            rw [todo]
            exact List.cons_ne_nil _ _
      | _ => exact .inl ho

/-- A stream that was handed to a handler has an id. -/
theorem handed_id (h : (connection H).Run guard evs s) {o : Nat} (ho : o ∈ s.handed) :
    ∃ k, s.ids[o]? = some k := by
  refine h.invariant (I := fun _ s => ∀ o ∈ s.handed, ∃ k, s.ids[o]? = some k) ?_ ?_ o ho
  · intro o ho
    cases ho
  · intro evs es s s' a hrun _ hs ih o ho
    rcases handed_step hs o ho with hold | ⟨i, htodo, rfl⟩
    · obtain ⟨k, hk⟩ := ih o hold
      exact ⟨k, ids_grow hs hk⟩
    · obtain ⟨k, hk, -⟩ := (workers_sound hrun i).todo htodo
      exact ⟨k, ids_grow hs hk⟩

/-- A call is on a stream that has an id. -/
theorem call_id (h : (connection H).Run guard evs s) {j : Nat} {c : Call H}
    (hc : s.calls[j]? = some c) : ∃ k, s.ids[c.stream]? = some k := by
  refine h.invariant (I := fun _ s => ∀ c ∈ s.calls, ∃ k, s.ids[c.stream]? = some k) ?_ ?_ c
    (List.mem_of_getElem? hc)
  · intro c hc
    cases hc
  · intro evs es s s' a hrun _ hs ih c hc
    have hgrow : (∃ k, s.ids[c.stream]? = some k) → ∃ k, s'.ids[c.stream]? = some k := by
      rintro ⟨k, hk⟩
      exact ⟨k, ids_grow hs hk⟩
    refine hgrow ?_
    cases calls_step hrun hs with
    | call k alt c' st out action get obj outcome state events =>
        rw [state] at hc
        rcases List.mem_or_eq_of_mem_set hc with hmem | rfl
        · exact ih c hmem
        · exact ih c' (List.mem_of_getElem? get)
    | cancel k c' st st' pc get obj outcome state events =>
        rw [state] at hc
        rcases List.mem_or_eq_of_mem_set hc with hmem | rfl
        · exact ih c hmem
        · exact ih c' (List.mem_of_getElem? get)
    | invoke o r mem state events =>
        rw [state] at hc
        rcases List.mem_append.mp hc with hmem | hmem
        · exact ih c hmem
        · rw [List.mem_singleton.mp hmem]
          exact handed_id hrun mem
    | other calls flag sent invoked => exact ih c (calls ▸ hc)

theorem mem_sentOn {evs : List (Event H)} {k : UInt32} {f : Frame H} :
    f ∈ evs.flatMap (Event.sentOn k) ↔ f.target = k ∧ ∃ src, .enqueued src f ∈ evs := by
  constructor
  · intro hf
    obtain ⟨e, he, hfe⟩ := List.mem_flatMap.mp hf
    cases e with
    | enqueued src g =>
        simp only [Event.sentOn] at hfe
        split at hfe
        · rename_i hg
          cases List.mem_singleton.mp hfe
          exact ⟨hg, src, he⟩
        · cases hfe
    | _ => cases hfe
  · rintro ⟨htarget, src, he⟩
    exact List.mem_flatMap.mpr ⟨_, he, by simp [Event.sentOn, htarget]⟩

/-- What is sent with an id that no stream has is no response. -/
theorem sentOn_id (h : (connection H).Run guard evs s) {k : UInt32} {f : Frame H}
    (hf : f ∈ evs.flatMap (Event.sentOn k)) : isNotice f = true ∨ k ∈ s.ids := by
  refine h.invariant (I := fun evs s => f ∈ evs.flatMap (Event.sentOn k) →
    isNotice f = true ∨ k ∈ s.ids) ?_ ?_ hf
  · intro hf
    cases hf
  · intro evs es s s' a hrun _ hs ih hf
    have hgrow : k ∈ s.ids → k ∈ s'.ids := fun hk => by
      rw [ids_step hs]
      exact List.mem_append_left _ hk
    rw [List.flatMap_append, List.mem_append] at hf
    rcases hf with hf | hf
    · exact (ih hf).imp_right hgrow
    · obtain ⟨htarget, src, he⟩ := mem_sentOn.mp hf
      cases calls_step hrun hs with
      | call j alt c st out action get obj outcome state events =>
          rw [events] at he
          obtain ⟨eff, heff, heq⟩ := List.mem_map.mp he
          cases eff with
          | delivered d => cases heq
          | enqueued g =>
              cases heq
              have hid : k = st.streamId :=
                htarget.symm.trans (sends_target ((callStep_keeps outcome).sent f heff).1)
              subst hid
              exact .inr (hgrow (List.mem_of_getElem? (ids_of_get obj)))
      | cancel j c st st' pc get obj outcome state events =>
          rw [events] at he
          cases he
      | invoke o r mem state events =>
          rw [events] at he
          cases List.mem_singleton.mp he
      | other calls flag sent invoked => exact .inl (sent src f he).2

end SpdyStream.Session
