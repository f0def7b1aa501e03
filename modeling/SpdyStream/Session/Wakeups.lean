/-
  Session/Wakeups.lean --- no wake-up before the reply is lost.

  `write_data` loads `replied` on both sides of `notified()`, and whoever stores
  `replied` notifies behind the store.  A waiter that is parked has loaded
  `replied` unset behind its `notified()`, so the notification is still to come.
-/
import SpdyStream.Session.FinStored

set_option autoImplicit false

namespace SpdyStream.Session

open SpdyStream.Foundation
open SpdyStream.Framing

variable {H : Type}

/-! ## Calls and notifications -/

/-- The call has stored `replied`, and has still to notify. -/
def CallPc.owesNotify : CallPc H → Bool
  | .replyNotify _ => true
  | _ => false

/-- How often the waiters had been notified when the call created its notification. -/
def CallPc.seen : CallPc H → Option Nat
  | .writeReload _ _ n | .writeWait _ _ n => some n
  | _ => none

/-- The call awaits its notification. -/
def CallPc.waits : CallPc H → Bool
  | .writeWait _ _ _ => true
  | _ => false

/-- What one operation of a call does about notifications. -/
structure WakeStep (pc : CallPc H) (st : Stream H) (out : CallOutcome H) : Prop where
  stored : out.stream.replied = true → st.replied = true ∨ out.pc.owesNotify = true
  notified : out.stream.notifies = st.notifies + pc.owesNotify.toNat
  seen : ∀ n, out.pc.seen = some n → pc.seen = some n ∨ n = st.notifies
  parks : out.pc.waits = true → st.replied = false

/-- An operation that leaves `replied` and the notifications, and does not wait. -/
theorem wakeStep_idle {pc : CallPc H} {st : Stream H} {out : CallOutcome H}
    (hreplied : out.stream.replied = st.replied) (hnotifies : out.stream.notifies = st.notifies)
    (howes : pc.owesNotify = false) (hseen : out.pc.seen = none) (hwaits : out.pc.waits = false) :
    WakeStep pc st out := by
  refine ⟨fun h => .inl (hreplied ▸ h), by rw [hnotifies, howes]; rfl, fun n hn => ?_, fun h => ?_⟩
  · rw [hseen] at hn
    cases hn
  · rw [hwaits] at h
    cases h

theorem sendThen_wake {pc next : CallPc H} {st : Stream H} {c : Channel H} {f : Frame H}
    {out : CallOutcome H} (h : sendThen c st f next = some out) (howes : pc.owesNotify = false)
    (hnext : next.seen = none ∧ next.waits = false) : WakeStep pc st out := by
  rcases sendThen_cases h with ⟨-, rfl⟩ | ⟨-, -, hstream, hpc⟩
  · exact wakeStep_idle rfl rfl howes rfl rfl
  · exact wakeStep_idle (by rw [hstream]) (by rw [hstream]) howes (by rw [hpc, hnext.1])
      (by rw [hpc, hnext.2])

theorem tryThen_wake {pc next : CallPc H} {st : Stream H} {c : Channel H} {f : Frame H}
    (blocked : Bool) (howes : pc.owesNotify = false)
    (hnext : next.seen = none ∧ next.waits = false) :
    WakeStep pc st (tryThen blocked c st f next) := by
  rcases tryThen_cases blocked c st f next with ⟨r, hr⟩ | ⟨-, -, hstream, hpc⟩
  · rw [hr]
    exact wakeStep_idle rfl rfl howes rfl rfl
  · exact wakeStep_idle (by rw [hstream]) (by rw [hstream]) howes (by rw [hpc, hnext.1])
      (by rw [hpc, hnext.2])

theorem callStep_wake {alt : Bool} {pc : CallPc H} {st : Stream H} {c : Channel H}
    {out : CallOutcome H} (h : callStep alt pc st c = some out) : WakeStep pc st out := by
  cases call_step h with
  | storesReplied _ =>
      refine ⟨fun _ => .inr rfl, rfl, fun n hn => ?_, fun hwaits => ?_⟩
      · cases hn
      · cases hwaits
  | notifies | notifiesFin =>
      refine ⟨.inl, rfl, fun n hn => ?_, fun hwaits => ?_⟩
      · cases hn
      · cases hwaits
  | notified _ _ =>
      refine ⟨.inl, rfl, fun n hn => .inr ?_, fun hwaits => absurd hwaits Bool.false_ne_true⟩
      exact (Option.some.inj hn).symm
  | reloadsUnreplied _ _ _ replied =>
      exact ⟨.inl, rfl, fun _ hn => .inl hn, fun _ => replied⟩
  | replySend _ _ send | writeSend _ _ send | resetSend _ send =>
      exact sendThen_wake send rfl ⟨rfl, rfl⟩
  | pollSend _ | shutdownSend => exact tryThen_wake alt rfl ⟨rfl, rfl⟩
  | _ => exact wakeStep_idle rfl rfl rfl rfl rfl

theorem callCancel_wake {pc pc' : CallPc H} {st st' : Stream H}
    (h : callCancel pc st = some (pc', st')) :
    st'.replied = st.replied ∧ st'.notifies = st.notifies ∧ pc'.owesNotify = pc.owesNotify ∧
      pc'.seen = none := by
  cases pc with
  | replySend _ _ | writeSend _ _ | writeWait _ _ _ | resetSend _ | readLock | readSelect =>
      cases h
      exact ⟨rfl, rfl, rfl, rfl⟩
  | _ => cases h

theorem entry_wake (r : Request H) : r.entry.owesNotify = false ∧ r.entry.seen = none := by
  cases r with
  | _ => exact ⟨rfl, rfl⟩

/-! ## Workers and notifications -/

/-- A worker that has stored `replied` notifies next. -/
theorem reply_then_notify {f : Frame H} {rest : List WorkerOp}
    (h : WorkerOp.storeReplied :: rest <:+ workerOps f) :
    ∃ rest', rest = .notifyWaiters :: rest' := by
  have hclose : ∀ (p : Prop) [Decidable p], ¬ WorkerOp.storeReplied :: rest <:+ closeIf p :=
    fun p _ hsuffix => by
      have hmem := hsuffix.subset List.mem_cons_self
      unfold closeIf at hmem
      split at hmem
      · simp at hmem
      · simp at hmem
  cases f with
  | synReply sr =>
      rcases List.suffix_cons_iff.mp h with heq | hsuffix
      · cases heq
        exact ⟨_, rfl⟩
      · rcases List.suffix_cons_iff.mp hsuffix with heq | hsuffix
        · cases heq
        · exact absurd hsuffix (hclose _)
  | data df =>
      rcases List.suffix_cons_iff.mp h with heq | hsuffix
      · cases heq
      · exact absurd hsuffix (hclose _)
  | headers hf => exact absurd h (hclose _)
  | synStream _ | rstStream _ | settings _ | ping _ | goAway _ | windowUpdate _ =>
      have hmem := h.subset List.mem_cons_self
      simp [workerOps] at hmem

variable {guard : List (Event H) → State H → Action H → Prop} {evs : List (Event H)} {s : State H}

/-- What is left to do of a message is the end of what its frame asks for. -/
theorem todo_suffix (h : (connection H).Run guard evs s) (i : Fin nWorkers) :
    ∃ f : Frame H, (s.workers i).todo <:+ workerOps f := by
  refine h.invariant (I := fun _ s => ∀ i, ∃ f : Frame H, (s.workers i).todo <:+ workerOps f)
    ?_ ?_ i
  · exact fun i => ⟨.ping { id := 0 }, List.nil_suffix⟩
  · intro evs es s s' a _ _ hs ih i
    cases workers_step hs with
    | same workers silent =>
        rw [workers]
        exact ih i
    | put o f pc workers events =>
        rw [workers, Function.update_apply]
        split
        · rename_i hi
          rw [← hi]
          exact ih i
        · exact ih i
    | take j m rest idle queue workers events =>
        rw [workers, Function.update_apply]
        split
        · exact ⟨m.frame, List.suffix_refl _⟩
        · exact ih i
    | work j op rest todo workers silent worked =>
        rw [workers, Function.update_apply]
        split
        · obtain ⟨f, hf⟩ := ih j
          rw [todo] at hf
          exact ⟨f, (List.suffix_cons op rest).trans hf⟩
        · exact ih i

/-- Worker `i` does its next operation. -/
theorem workerRun_rest {s s' : State H} {i : Fin nWorkers} {es : List (Event H)}
    (hs : s.workerRun i = some (s', es)) :
    ∃ op rest, (s.workers i).todo = op :: rest ∧
      s'.workers i = { s.workers i with todo := rest } ∧ .worked (s.workers i).stream op ∈ es := by
  have hset : ∀ rest, (s.setTodo i rest).workers i = { s.workers i with todo := rest } :=
    fun _ => Function.update_self ..
  cases workerRun_move hs with
  | take m rest idle queue worker =>
      unfold State.workerRun at hs
      simp only [idle] at hs
      cases hs
  | spawn rest todo | push _ rest _ todo _ | close rest todo | remove rest _ todo _ _
  | reply _ rest _ todo _ _ _ _ => exact ⟨_, rest, todo, hset rest, List.mem_cons_self⟩

/-- A worker that has something to do keeps it until it goes on. -/
theorem todo_kept {s s' : State H} {a : Action H} {es : List (Event H)}
    (hs : s.step a = some (s', es)) {i : Fin nWorkers} (htodo : (s.workers i).todo ≠ [])
    (ha : a ≠ .workerRun i) :
    (s'.workers i).todo = (s.workers i).todo ∧ (s'.workers i).stream = (s.workers i).stream := by
  have hsame : s'.workers = s.workers → (s'.workers i).todo = (s.workers i).todo ∧
      (s'.workers i).stream = (s.workers i).stream := fun h => by rw [h]; exact ⟨rfl, rfl⟩
  cases step_kind hs with
  | aside h kind => exact hsame h.workers
  | read f pc state events => exact hsame (by rw [state])
  | move hmove =>
      cases hmove with
      | plain still before next loop mute => exact hsame still.workers
      | deliver o f pc worker =>
          simp only [worker, Function.update_apply]
          split
          · rename_i hi
            rw [hi]
            exact ⟨rfl, rfl⟩
          · exact ⟨rfl, rfl⟩
      | _ => exact ⟨rfl, rfl⟩
  | worker j hmove action =>
      have hne : i ≠ j := fun hi => by
        subst hi
        rcases action with hrun | hidle
        · exact ha hrun
        · exact htodo hidle
      have hworkers : s'.workers i = s.workers i := by
        cases hmove with
        | _ => exact Function.update_of_ne hne _ _
      rw [hworkers]
      exact ⟨rfl, rfl⟩

/-! ## Parked calls -/

/-- How often the waiters of stream `o` have been notified. -/
def State.notifiesOf (o : Nat) (s : State H) : Nat :=
  match s.objs[o]? with
  | none => 0
  | some st => st.notifies

theorem notifiesOf_of_get {s : State H} {o : Nat} {st : Stream H} (h : s.objs[o]? = some st) :
    s.notifiesOf o = st.notifies := by
  rw [State.notifiesOf, h]

/-- A reply of stream `o` is between its store of `replied` and its notification. -/
def State.Notifying (o : Nat) (s : State H) : Prop :=
  s.anyCall o CallPc.owesNotify = true ∨
    ∃ i, (s.workers i).stream = o ∧ (s.workers i).todo.head? = some .notifyWaiters

instance (o : Nat) (s : State H) : Decidable (s.Notifying o) :=
  inferInstanceAs (Decidable (_ ∨ _))

/-- No notification passes a waiter of stream `o` by: none is ahead of the stream, and
one that is level with it waits for a reply or for its notification. -/
structure Awake (o : Nat) (s : State H) : Prop where
  behind : ∀ j pc n, s.pcOf o j = some pc → pc.seen = some n → n ≤ s.notifiesOf o
  parked : ∀ j pc, s.pcOf o j = some pc → pc.waits = true → pc.seen = some (s.notifiesOf o) →
    s.repliedFlag o = true → s.Notifying o

theorem awake_of_none {o : Nat} {s : State H} (hnone : ∀ j, s.pcOf o j = none) : Awake o s := by
  refine ⟨fun j pc n hpc => ?_, fun j pc hpc => ?_⟩
  · rw [hnone] at hpc
    cases hpc
  · rw [hnone] at hpc
    cases hpc

/-- Calls that wait are where they were, and nobody has notified. -/
theorem Awake.congr {o : Nat} {s s' : State H} (h : Awake o s)
    (hnotifies : s'.notifiesOf o = s.notifiesOf o)
    (hreplied : s'.repliedFlag o = true → s.repliedFlag o = true ∨ s'.Notifying o)
    (hpcs : ∀ j pc, s'.pcOf o j = some pc → pc.seen = none ∨ s.pcOf o j = some pc)
    (hnotifying : s.Notifying o → s'.Notifying o) : Awake o s' := by
  refine ⟨fun j pc n hpc hn => ?_, fun j pc hpc hwaits hn hset => ?_⟩
  · rcases hpcs j pc hpc with hnone | hold
    · rw [hnone] at hn
      cases hn
    · rw [hnotifies]
      exact h.behind j pc n hold hn
  · rcases hpcs j pc hpc with hnone | hold
    · rw [hnone] at hn
      cases hn
    · rw [hnotifies] at hn
      rcases hreplied hset with hset | hnow
      · exact hnotifying (h.parked j pc hold hwaits hn hset)
      · exact hnow

/-- Somebody has notified. -/
theorem Awake.notify {o : Nat} {s s' : State H}
    (hbehind : ∀ j pc n, s'.pcOf o j = some pc → pc.seen = some n → n ≤ s.notifiesOf o)
    (hnotifies : s'.notifiesOf o = s.notifiesOf o + 1) : Awake o s' := by
  refine ⟨fun j pc n hpc hn => ?_, fun j pc hpc _ hn _ => ?_⟩
  · rw [hnotifies]
    exact Nat.le_succ_of_le (hbehind j pc n hpc hn)
  · have hle := hbehind j pc _ hpc hn
    rw [hnotifies] at hle
    exact absurd hle (Nat.not_succ_le_self _)

/-- A call on the stream goes on. -/
theorem Awake.call {o j : Nat} {alt : Bool} {pc : CallPc H} {st : Stream H}
    {out : CallOutcome H} {s s' : State H} (h : Awake o s) (hpc : s.pcOf o j = some pc)
    (hst : s.objs[o]? = some st) (hout : callStep alt pc st s.writeChannel = some out)
    (hnow : s'.objs[o]? = some out.stream)
    (hpcs : ∀ i, s'.pcOf o i = if i = j then some out.pc else s.pcOf o i)
    (hworkers : s'.workers = s.workers) : Awake o s' := by
  have hwake := callStep_wake hout
  have hnotifies := notifiesOf_of_get hst
  have hnotifies' := notifiesOf_of_get hnow
  have hreplied := repliedFlag_of_get hst
  have hreplied' := repliedFlag_of_get hnow
  have hbehind : ∀ i q n, s'.pcOf o i = some q → q.seen = some n → n ≤ s.notifiesOf o := by
    intro i q n hq hn
    rw [hpcs] at hq
    split at hq
    · cases hq
      rcases hwake.seen n hn with hold | rfl
      · exact h.behind j pc n hpc hold
      · exact hnotifies.ge
    · exact h.behind i q n hq hn
  cases howes : pc.owesNotify with
  | true =>
      refine Awake.notify hbehind ?_
      rw [hnotifies', hwake.notified, howes, hnotifies]
      rfl
  | false =>
      have hsame : s'.notifiesOf o = s.notifiesOf o := by
        rw [hnotifies', hwake.notified, howes, hnotifies]
        rfl
      have hkeep : s.Notifying o → s'.Notifying o := by
        rintro (hany | hworker)
        · refine .inl (anyCall_keep (fun q hq => ?_) hpcs hany)
          rw [hpc] at hq
          cases hq
          exact howes
        · exact .inr (by rwa [hworkers])
      have hnew : out.pc.owesNotify = true → s'.Notifying o := fun hp =>
        .inl (anyCall_enter hpcs hp)
      refine ⟨fun i q n hq hn => hsame ▸ hbehind i q n hq hn, fun i q hq hwaits hn hset => ?_⟩
      rw [hreplied'] at hset
      rw [hpcs] at hq
      split at hq
      · cases hq
        -- the call has just loaded `replied` unset
        have hunset := hwake.parks hwaits
        rcases hwake.stored hset with hold | hp
        · rw [hunset] at hold
          cases hold
        · exact hnew hp
      · rcases hwake.stored hset with hold | hp
        · rw [hsame] at hn
          exact hkeep (h.parked i q hq hwaits hn (hreplied.trans hold))
        · exact hnew hp

theorem onStream_notifies {op : WorkerOp} (hop : op ≠ .notifyWaiters) (st : Stream H) :
    (op.onStream st).notifies = st.notifies := by
  cases op with
  | notifyWaiters => exact absurd rfl hop
  | pushData data =>
      simp only [WorkerOp.onStream, Stream.pushData]
      split
      · rfl
      · rfl
  | _ => rfl

variable {guard : List (Event H) → State H → Action H → Prop} {evs : List (Event H)} {s : State H}

/-- The worker of the stream does an operation. -/
theorem Awake.work {o : Nat} {s' : State H} {i : Fin nWorkers} {op : WorkerOp}
    {rest : List WorkerOp} {st : Stream H} {es : List (Event H)}
    (hrun : (connection H).Run guard evs s) (hs : s.step (.workerRun i) = some (s', es))
    (h : Awake o s) (hstream : (s.workers i).stream = o) (htodo : (s.workers i).todo = op :: rest)
    (hst : s.objs[o]? = some st) (hnow : s'.objs[o]? = some (op.onStream st))
    (hpcs : ∀ j, s'.pcOf o j = s.pcOf o j) : Awake o s' := by
  have hworker : s'.workers i = { s.workers i with todo := rest } := by
    obtain ⟨op', rest', htodo', hnext, -⟩ := workerRun_rest hs
    obtain ⟨-, rfl⟩ := List.cons.inj (htodo.symm.trans htodo')
    exact hnext
  have hnotifies := notifiesOf_of_get hst
  have hnotifies' := notifiesOf_of_get hnow
  by_cases hnotify : op = .notifyWaiters
  · subst hnotify
    refine Awake.notify (fun j pc n hpc hn => h.behind j pc n (hpcs j ▸ hpc) hn) ?_
    rw [hnotifies', hnotifies]
    rfl
  · refine h.congr ?_ (fun hset => ?_) (fun j pc hpc => .inr (hpcs j ▸ hpc)) ?_
    · rw [hnotifies', hnotifies, onStream_notifies hnotify]
    · by_cases hstore : op = .storeReplied
      · subst hstore
        obtain ⟨f, hsuffix⟩ := todo_suffix hrun i
        rw [htodo] at hsuffix
        obtain ⟨rest', rfl⟩ := reply_then_notify hsuffix
        refine .inr (.inr ⟨i, ?_, ?_⟩)
        · rw [hworker]
          exact hstream
        · rw [hworker]
          rfl
      · rw [repliedFlag_of_get hnow, onStream_replied hstore] at hset
        exact .inl ((repliedFlag_of_get hst).trans hset)
    · rintro (hany | ⟨i', hstream', hhead⟩)
      · exact .inl ((anyCall_congr hpcs).trans hany)
      · have hne : (s.workers i').todo ≠ [] := fun hnil => by
          rw [hnil] at hhead
          cases hhead
        have hother : Action.workerRun i ≠ (.workerRun i' : Action H) := fun heq => by
          cases heq
          rw [htodo] at hhead
          exact hnotify (Option.some.inj hhead)
        obtain ⟨hkept, hstream''⟩ := todo_kept hs hne hother
        exact .inr ⟨i', hstream''.trans hstream', hkept ▸ hhead⟩

/-- Whoever has to notify stays where it is, unless it is the worker of the stream that
goes on. -/
theorem notifying_kept {s' : State H} {a : Action H} {es : List (Event H)}
    (hs : s.step a = some (s', es)) {o : Nat}
    (hworker : ∀ i, a = .workerRun i → (s.workers i).stream ≠ o)
    (hcalls : s'.anyCall o CallPc.owesNotify = s.anyCall o CallPc.owesNotify)
    (h : s.Notifying o) : s'.Notifying o := by
  rcases h with hany | ⟨i, hstream, hhead⟩
  · exact .inl (hcalls.trans hany)
  · have hne : (s.workers i).todo ≠ [] := fun hnil => by
      rw [hnil] at hhead
      cases hhead
    obtain ⟨hkept, hstream'⟩ := todo_kept hs hne fun ha => hworker i ha hstream
    exact .inr ⟨i, hstream'.trans hstream, hkept ▸ hhead⟩

theorem awake_step (hrun : (connection H).Run guard evs s) {s' : State H} {a : Action H}
    {es : List (Event H)} (hs : s.step a = some (s', es)) {o : Nat} (h : Awake o s) :
    Awake o s' := by
  cases stream_step hrun hs o with
  | call j alt pc st out action get obj outcome now calls events =>
      refine h.call get obj outcome now calls ?_
      rw [action] at hs
      exact (aside_step rfl hs).aside.workers
  | cancel j pc pc' st st' action get obj outcome now calls events =>
      obtain ⟨hreplied, hnotifies, howes, hseen⟩ := callCancel_wake outcome
      refine h.congr ?_ (fun hset => .inl ?_) (fun i q hq => ?_)
        (notifying_kept hs ?_ (anyCall_same get howes calls))
      · rw [notifiesOf_of_get now, notifiesOf_of_get obj, hnotifies]
      · rw [repliedFlag_of_get now, hreplied] at hset
        exact (repliedFlag_of_get obj).trans hset
      · rw [calls] at hq
        split at hq
        · cases hq
          exact .inl hseen
        · exact .inr hq
      · simp [action]
  | invoke j r action fresh now calls events =>
      obtain ⟨howes, hseen⟩ := entry_wake r
      have hfresh : ∀ q, s.pcOf o j = some q → q.owesNotify = false := fun q hq => by
        rw [fresh] at hq
        cases hq
      have hsame := Bool.eq_iff_iff.mpr
        ⟨anyCall_other (p := CallPc.owesNotify) calls howes, anyCall_keep hfresh calls⟩
      refine h.congr ?_ (fun hset => .inl ?_) (fun i q hq => ?_) (notifying_kept hs ?_ hsame)
      · rw [State.notifiesOf, State.notifiesOf, now]
      · rwa [State.repliedFlag, now, ← State.repliedFlag] at hset
      · rw [calls] at hq
        split at hq
        · cases hq
          exact .inl hseen
        · exact .inr hq
      · simp [action]
  | work i op rest st action stream todo obj now calls events =>
      rw [action] at hs
      exact h.work hrun hs stream todo obj now calls
  | sweep st sweeps obj now calls events =>
      refine h.congr ?_ (fun hset => .inl ?_) (fun i q hq => .inr (calls i ▸ hq))
        (notifying_kept hs ?_ (anyCall_congr calls))
      · rw [notifiesOf_of_get now, notifiesOf_of_get obj]
        rfl
      · rw [repliedFlag_of_get now] at hset
        exact (repliedFlag_of_get obj).trans hset
      · rintro i rfl
        cases sweeps
  | make f pc before now calls events =>
      exact awake_of_none fun j => (calls j).trans (pcOf_none hrun before j)
  | other same calls unswept silent sent =>
      refine h.congr ?_ (fun hset => .inl ?_) (fun i q hq => .inr (calls i ▸ hq))
        (notifying_kept hs ?_ (anyCall_congr calls))
      · rw [State.notifiesOf, State.notifiesOf, same]
      · rwa [State.repliedFlag, same, ← State.repliedFlag] at hset
      · rintro i rfl hstream
        obtain ⟨op, -, -, -, hmem⟩ := workerRun_rest hs
        have hquiet := silent _ hmem
        simp [Event.concerns, hstream] at hquiet

theorem awake_run (h : (connection H).Run guard evs s) (o : Nat) : Awake o s := by
  refine h.invariant (I := fun _ s => Awake o s) ?_ ?_
  · exact awake_of_none fun _ => rfl
  · intro evs es s s' a hrun _ hs ih
    exact awake_step hrun hs ih

/-- **No lost wake-up.**  When `replied` is set, and no reply is between its store and
its notification, every `write_data` that awaits a notification has one, and goes
back to the load of `replied`. -/
theorem waiters_notified (h : (connection H).Reached evs s) {o : Nat}
    (hreplied : s.repliedFlag o = true) (hdone : ¬ s.Notifying o) :
    ∀ j data fin seen, s.pcOf o j = some (.writeWait data fin seen) → ∀ alt,
      ∃ s', s.step (.call j alt) = some (s', []) ∧
        s'.pcOf o j = some (.writeLoad data fin) := by
  intro j data fin seen hpc alt
  have hget := pcOf_eq_some.mp hpc
  cases hst : s.objs[o]? with
  | none =>
      rw [pcOf_none h hst] at hpc
      cases hpc
  | some st =>
      have hne : st.notifies ≠ seen := fun heq => by
        refine hdone ((awake_run h o).parked j _ hpc rfl ?_ hreplied)
        rw [notifiesOf_of_get hst, heq]
        rfl
      have hstep : s.step (.call j alt) = some ({ s with
          calls := s.calls.set j { stream := o, pc := .writeLoad data fin }
          objs := s.objs.set o st }, []) := by
        simp [State.step, State.stepCall, hget, hst, callStep, hne]
      refine ⟨_, hstep, ?_⟩
      rw [pcOf_set hget rfl]
      exact if_pos ⟨rfl, rfl⟩

/-- A `write_data` waits, the handler replies, and the `write_data` can go on. -/
theorem waiters_notified_afterReply : ∃ evs s, (connection Unit).Reached evs s ∧
    s.pcOf 0 0 = some (.writeWait [1] false 0) ∧
    ∃ s', s.step (.call 0 false) = some (s', []) ∧
      s'.pcOf 0 0 = some (.writeLoad [1] false) := by
  obtain ⟨evs, s, h, hcheck⟩ := Machine.exists_run_of_exec (connection Unit) Machine.free
    (registers (plainSyn 1 0) ++ applies (.synStream (plainSyn 1 0)) ++
      Action.invoke 0 (.writeData [1] false) :: calls 0 3 ++
      Action.invoke 0 (.sendReply () false) :: calls 1 3)
    (fun _ s => decide (s.pcOf 0 0 = some (.writeWait [1] false 0) ∧
      s.repliedFlag 0 = true ∧ ¬ s.Notifying 0))
    (by decide +kernel)
  obtain ⟨hpc, hreplied, hdone⟩ := of_decide_eq_true hcheck
  exact ⟨evs, s, h, hpc, waiters_notified h hreplied hdone 0 [1] false 0 hpc false⟩

end SpdyStream.Session
