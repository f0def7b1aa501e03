/-
  Session/Handle.lean --- who has access to a stream.

  A handler is given an `Arc<Stream>`, and `poll_read` takes `&mut self`: it can be called
  when that is the only `Arc` there is, and no call borrows the stream.  The clones of the
  connection are in the map, with the read task and with the workers; while there is one
  the stream can be pushed to and closed, and once there is none there never is one again
  (`shares_step`).

  `handle` is the machine of one stream with this bookkeeping.  It follows every run of
  the connection (`handle_follows`), and lets go of the stream where the connection does.
-/
import SpdyStream.Session.ReadHalf

set_option autoImplicit false

namespace SpdyStream.Session

open SpdyStream.Foundation
open SpdyStream.Framing

variable {H : Type}

/-! ## The machine -/

/-- The call has not returned: it borrows the stream. -/
def CallPc.inProgress : CallPc H → Bool
  | .returned _ => false
  | _ => true

/-- The `j`-th call borrows the stream. -/
def Reader.borrowed (r : Reader H) (j : Nat) : Bool :=
  match r.calls j with
  | some pc => pc.inProgress
  | none => false

/-- The call that begins. -/
def ReadAction.makes : ReadAction H → List Nat
  | .invoke j _ => [j]
  | _ => []

/-- A stream, and who has access to it. -/
structure Handle (H : Type) where
  reader : Reader H
  /-- the connection has a clone of the `Arc<Stream>` -/
  shared : Bool
  /-- the calls that borrow the stream -/
  borrows : List Nat

/-- What happens to a stream and to the access to it. -/
inductive HandleAction (H : Type) where
  | stream (a : ReadAction H)
  /-- the last clone of the connection is dropped -/
  | release

namespace Handle

/-- The worker and the teardown have a clone of the `Arc`, a call borrows the stream
while no `poll_read` does, and a `poll_read` is called on a stream that nobody else
has. -/
def permits (x : Handle H) : ReadAction H → Bool
  | .work _ => x.shared
  | .invoke _ _ | .call _ _ _ | .cancel _ => decide (x.reader.poll = .idle)
  | .poll _ => !x.shared && x.borrows.isEmpty
  | .pollStep _ | .pollRefused _ => true

/-- The stream is `r` after a step. -/
def after (x : Handle H) (a : ReadAction H) (r : Reader H) : Handle H where
  reader := r
  shared := x.shared
  borrows := (a.makes ++ x.borrows).filter r.borrowed

/-- One step of a stream to which access is controlled. -/
def step (x : Handle H) : HandleAction H → Option (Handle H × List ReadEvent)
  | .stream a =>
      if x.permits a then (x.reader.step a).map fun out => (x.after a out.1, out.2) else none
  | .release => some ({ x with shared := false }, [])

end Handle

/-- The stream with the id, the headers and the priority of `st`, which the connection has
put into its map. -/
def handle (st : Stream H) : Machine (Handle H) (HandleAction H) ReadEvent where
  start := { reader := Reader.start st, shared := true, borrows := [] }
  step := Handle.step

/-! ## Steps -/

/-- What a step does. -/
inductive HandleMove (x : Handle H) (a : HandleAction H) (x' : Handle H) (es : List ReadEvent) :
    Prop where
  | stream (ra : ReadAction H) (action : a = .stream ra) (permitted : x.permits ra = true)
      (step : x.reader.step ra = some (x'.reader, es)) (state : x' = x.after ra x'.reader)
  | release (action : a = .release) (state : x' = { x with shared := false }) (events : es = [])

theorem handle_step {x x' : Handle H} {a : HandleAction H} {es : List ReadEvent}
    (h : x.step a = some (x', es)) : HandleMove x a x' es := by
  cases a with
  | release =>
      cases h
      exact .release rfl rfl rfl
  | stream ra =>
      simp only [Handle.step] at h
      split at h
      · rename_i hpermitted
        obtain ⟨⟨r, es'⟩, hstep, heq⟩ := Option.map_eq_some_iff.mp h
        cases heq
        exact .stream ra rfl hpermitted hstep rfl
      · cases h

variable {st₀ : Stream H} {guard : List ReadEvent → Handle H → HandleAction H → Prop}
  {evs : List ReadEvent} {x : Handle H}

/-- Under control a stream does nothing that it does not do without. -/
theorem reader_of_handle (h : (handle st₀).Run guard evs x) :
    (reader st₀).Reached evs x.reader := by
  refine h.invariant (I := fun evs x => (reader st₀).Reached evs x.reader) ?_ ?_
  · exact Machine.Run.start
  · intro evs es x x' a _ _ hs ih
    cases handle_step hs with
    | stream ra action permitted step state => exact ih.step trivial step
    | release action state events =>
        rw [state, events, List.append_nil]
        exact ih

/-! ## Exclusive access -/

theorem borrowed_setCall (r : Reader H) (st : Stream H) (b : Bool) (j i : Nat) (pc : CallPc H) :
    ({ r with stream := st, registered := b }.setCall j pc).borrowed i =
      if i = j then pc.inProgress else r.borrowed i := by
  by_cases hi : i = j
  · simp [Reader.borrowed, Reader.setCall, hi]
  · simp [Reader.borrowed, Reader.setCall, hi]

theorem inProgress_of_step {alt : Bool} {pc : CallPc H} {st : Stream H} {c : Channel H}
    {out : CallOutcome H} (h : callStep alt pc st c = some out) : pc.inProgress = true := by
  cases pc with
  | returned _ => cases h
  | _ => rfl

theorem inProgress_of_cancel {pc pc' : CallPc H} {st st' : Stream H}
    (h : callCancel pc st = some (pc', st')) : pc.inProgress = true := by
  cases pc with
  | returned _ => cases h
  | _ => rfl

/-- A call that borrows the stream after a step did so before, or has begun. -/
theorem borrowed_step {r r' : Reader H} {a : ReadAction H} {es : List ReadEvent}
    (hs : r.step a = some (r', es)) {i : Nat} (hi : r'.borrowed i = true) :
    i ∈ a.makes ∨ r.borrowed i = true := by
  cases reader_step hs with
  | work op action state events =>
      right
      rwa [state, Reader.borrowed, (r.work_eq op).2.1] at hi
  | invoke j q action state events =>
      rw [state, borrowed_setCall r r.stream r.registered] at hi
      split at hi
      · rename_i hij
        exact .inl (by simp [action, ReadAction.makes, hij])
      · exact .inr hi
  | call j alt c pc out action get outcome state events =>
      right
      rw [state, borrowed_setCall] at hi
      split at hi
      · rename_i hij
        rw [Reader.borrowed, hij, get]
        exact inProgress_of_step outcome
      · exact hi
  | cancel j pc pc' st action get outcome state events =>
      right
      rw [state, borrowed_setCall r st r.registered] at hi
      split at hi
      · rename_i hij
        rw [Reader.borrowed, hij, get]
        exact inProgress_of_cancel outcome
      · exact hi
  | poll move =>
      right
      rwa [Reader.borrowed, move.calls] at hi

/-- Nobody else has access to the stream while a `poll_read` is in progress, and the
connection has none while the last one has returned `Pending`. -/
structure Exclusive (x : Handle H) : Prop where
  counted : ∀ j, x.reader.borrowed j = true → j ∈ x.borrows
  alone : x.reader.poll ≠ .idle → x.shared = false ∧ ∀ j, x.reader.borrowed j = false
  pending : x.reader.pending = true → x.shared = false

theorem exclusive_step {x' : Handle H} {a : HandleAction H} {es : List ReadEvent}
    (hs : x.step a = some (x', es)) (h : Exclusive x) : Exclusive x' := by
  cases handle_step hs with
  | release action state events =>
      rw [state]
      exact ⟨h.counted, fun hpoll => ⟨rfl, (h.alone hpoll).2⟩, fun _ => rfl⟩
  | stream ra action permitted step state =>
      have hshared : x'.shared = x.shared := by rw [state]; rfl
      have hcounted : ∀ j, x'.reader.borrowed j = true → j ∈ x'.borrows := fun j hj => by
        rw [state]
        exact List.mem_filter.mpr
          ⟨List.mem_append.mpr ((borrowed_step step hj).imp_right (h.counted j)), hj⟩
      -- a call that goes on leaves `poll_read` idle
      have hcall : x'.reader.poll = x.reader.poll →
          x'.reader.pending = x.reader.pending → decide (x.reader.poll = .idle) = true →
          Exclusive x' := fun hpoll hpending hidle =>
        ⟨hcounted, fun hbusy => absurd (hpoll.trans (of_decide_eq_true hidle)) hbusy,
          fun hp => hshared.trans (h.pending (hpending ▸ hp))⟩
      cases reader_step step with
      | work op haction hstate hevents =>
          obtain ⟨-, -, -, hpoll, hpending⟩ := x.reader.work_eq op
          have hheld : x.shared = true := by rwa [haction] at permitted
          refine ⟨hcounted, fun hbusy => ?_, fun hp => ?_⟩
          · rw [hstate, hpoll] at hbusy
            exact absurd hheld (ne_true_of_eq_false (h.alone hbusy).1)
          · rw [hstate, hpending] at hp
            exact hshared.trans (h.pending hp)
      | invoke j q haction hstate hevents =>
          rw [haction] at permitted
          exact hcall (by rw [hstate]; rfl) (by rw [hstate]; rfl) permitted
      | call j alt c pc out haction get outcome hstate hevents =>
          rw [haction] at permitted
          exact hcall (by rw [hstate]; rfl) (by rw [hstate]; rfl) permitted
      | cancel j pc pc' st haction get outcome hstate hevents =>
          rw [haction] at permitted
          exact hcall (by rw [hstate]; rfl) (by rw [hstate]; rfl) permitted
      | poll move =>
          have hsame : ∀ j, x'.reader.borrowed j = x.reader.borrowed j := fun j => by
            rw [Reader.borrowed, Reader.borrowed, move.calls]
          rcases move.begins with ⟨n, haction⟩ | hbusy
          · rw [haction, Handle.permits, Bool.and_eq_true, Bool.not_eq_true',
              List.isEmpty_iff] at permitted
            refine ⟨hcounted, fun _ => ⟨hshared.trans permitted.1, fun j => ?_⟩, fun hp => ?_⟩
            · rw [hsame]
              refine eq_false_of_ne_true fun hj => ?_
              have hmem := h.counted j hj
              rw [permitted.2] at hmem
              cases hmem
            · exact hshared.trans permitted.1
          · obtain ⟨hfree, hnone⟩ := h.alone hbusy
            exact ⟨hcounted, fun _ => ⟨hshared.trans hfree, fun j => (hsame j).trans (hnone j)⟩,
              fun _ => hshared.trans hfree⟩

/-- **Exclusive access.** -/
theorem exclusive_run (h : (handle st₀).Run guard evs x) : Exclusive x := by
  refine h.invariant (I := fun _ x => Exclusive x) ?_ ?_
  · refine ⟨fun j hj => ?_, fun hbusy => absurd rfl hbusy, fun hp => ?_⟩
    · cases hj
    · cases hp
  · intro evs es x x' a _ _ hs ih
    exact exclusive_step hs ih

/-! ## The clones of the connection -/

/-- The read task holds a clone of the `Arc`, or the loop of the teardown has still to
come to the stream. -/
def ReadTask.holdsStream (o : Nat) : ReadTask H → Bool
  | .storeLast _ o' | .forward o' _ => decide (o' = o)
  | .sweep rest => decide (o ∈ rest)
  | _ => false

/-- A worker holds a clone of the `Arc`, with the message in hand or one in its
channel. -/
def Worker.holdsStream (o : Nat) (w : Worker H) : Prop :=
  (w.stream = o ∧ w.todo ≠ []) ∨ ∃ m ∈ w.queue, m.stream = o

/-- The connection has a clone of the `Arc` of stream `o`. -/
def State.shares (o : Nat) (s : State H) : Prop :=
  o ∈ s.streams.entries.map Sigma.snd ∨ s.readTask.holdsStream o = true ∨
    ∃ i, (s.workers i).holdsStream o

instance (o : Nat) (w : Worker H) : Decidable (w.holdsStream o) :=
  inferInstanceAs (Decidable (_ ∨ _))

instance (o : Nat) (s : State H) : Decidable (s.shares o) := inferInstanceAs (Decidable (_ ∨ _))

theorem mem_of_lookup {m : AList fun _ : UInt32 => Nat} {k : UInt32} {o : Nat}
    (h : m.lookup k = some o) : o ∈ m.entries.map Sigma.snd :=
  List.mem_map.mpr ⟨⟨k, o⟩, AList.mem_lookup_iff.mp h, rfl⟩

theorem shares_erase {m : AList fun _ : UInt32 => Nat} {k : UInt32} {o : Nat}
    (h : o ∈ (m.erase k).entries.map Sigma.snd) : o ∈ m.entries.map Sigma.snd :=
  ((List.kerase_sublist k m.entries).map Sigma.snd).subset h

/-- A step that changes the read task, and neither the map nor the workers. -/
theorem shares_of_read {s s' : State H} {o : Nat} (h : s'.shares o)
    (hstreams : s'.streams = s.streams) (hworkers : s'.workers = s.workers)
    (hread : s'.readTask.holdsStream o = true → s.shares o) : s.shares o := by
  rcases h with hmem | hholds | hholds
  · exact .inl (hstreams ▸ hmem)
  · exact hread hholds
  · exact .inr (.inr (hworkers ▸ hholds))

/-- A worker that holds nothing that the connection did not hold. -/
theorem shares_of_worker {s s' : State H} {o : Nat} {i : Fin nWorkers} {w : Worker H}
    (h : s'.shares o)
    (hstreams : o ∈ s'.streams.entries.map Sigma.snd → o ∈ s.streams.entries.map Sigma.snd)
    (hread : s'.readTask.holdsStream o = true → s.readTask.holdsStream o = true)
    (hworkers : s'.workers = Function.update s.workers i w) (hw : w.holdsStream o → s.shares o) :
    s.shares o := by
  rcases h with hmem | hholds | ⟨j, hholds⟩
  · exact .inl (hstreams hmem)
  · exact .inr (.inl (hread hholds))
  · rw [hworkers] at hholds
    by_cases hj : j = i
    · rw [hj, Function.update_self] at hholds
      exact hw hholds
    · rw [Function.update_of_ne hj] at hholds
      exact .inr (.inr ⟨j, hholds⟩)

theorem dispatch_holds (f : Frame H) (o : Nat) : (dispatch f).holdsStream o = false := by
  cases f with
  | synStream g =>
      simp only [dispatch]
      split
      · rfl
      · rfl
  | ping p =>
      simp only [dispatch]
      split
      · rfl
      · rfl
  | _ => rfl

theorem missing_holds (f : Frame H) (o : Nat) : (missing f).holdsStream o = false := by
  cases f with
  | _ => rfl

theorem readMove_shares {s s' : State H} {es : List (Event H)} {o : Nat}
    (hholds : s.readTask.holdsFrame = true) (hmove : ReadMove s s' es) (h : s'.shares o) :
    s.shares o ∨ s.objs[o]? = none := by
  cases hmove with
  | plain still before next loop mute => cases hholds.symm.trans before
  | answer f c es pc channel events =>
      cases hholds.symm.trans (ReadTask.holdsFrame_of_answer pc)
  | stale f pc le | checked f pc lt | refused f pc gone | passed f pc here | taken f pc mem =>
      exact .inl (shares_of_read h rfl rfl fun hread => absurd hread Bool.false_ne_true)
  | missed f pc miss =>
      exact .inl (shares_of_read h rfl rfl fun hread =>
        absurd hread (ne_true_of_eq_false (missing_holds f o)))
  | found f o' pc hit =>
      refine .inl (shares_of_read h rfl rfl fun hread => .inl ?_)
      rw [← of_decide_eq_true hread]
      exact mem_of_lookup hit
  | publish f o' pc =>
      refine .inl (shares_of_read h rfl rfl fun hread => .inr (.inl ?_))
      rw [pc]
      exact hread
  | accept f pc notMem =>
      -- the new stream is the only one that comes into the map
      by_cases ho : o = s.objs.length
      · exact .inr (List.getElem?_eq_none (Nat.le_of_eq ho.symm))
      · left
        rcases h with hmem | hread | hworkers
        · rw [AList.entries_insert_of_notMem notMem, List.map_cons] at hmem
          exact .inl ((List.mem_cons.mp hmem).resolve_left ho)
        · exact absurd (of_decide_eq_true hread).symm ho
        · exact .inr (.inr hworkers)
  | deliver o' f pc worker =>
      refine .inl (shares_of_worker h id (fun hread => absurd hread Bool.false_ne_true) rfl ?_)
      rw [worker]
      rintro (hhand | ⟨m, hm, ho⟩)
      · exact .inr (.inr ⟨_, .inl hhand⟩)
      · rcases List.mem_append.mp hm with hm | hm
        · exact .inr (.inr ⟨_, .inr ⟨m, hm, ho⟩⟩)
        · rw [List.mem_singleton.mp hm] at ho
          refine .inr (.inl ?_)
          rw [pc]
          exact decide_eq_true ho

theorem taskMove_shares {s s' : State H} {pick : Nat} {es : List (Event H)} {o : Nat}
    (hmove : TaskMove s pick s' es) (h : s'.shares o) : s.shares o ∨ s.objs[o]? = none := by
  cases hmove with
  | routes holds move => exact readMove_shares holds move h
  | inUse f pc send | responds f pc send =>
      obtain ⟨⟨s₁, es₁⟩, hsend, hr⟩ := Option.map_eq_some_iff.mp send
      obtain ⟨c, rfl, -, -⟩ := sendIgnoring_eq hsend
      cases hr
      exact .inl (shares_of_read h rfl rfl fun hread => absurd hread Bool.false_ne_true)
  | resolves id' pc =>
      obtain ⟨pingMap, pings, heq⟩ := signalPing_eq s id' .fired
      rw [heq] at h
      exact .inl (shares_of_read h rfl rfl fun hread => absurd hread Bool.false_ne_true)
  | goesAway pc | closes pc | swept pc | ends pc =>
      exact .inl (shares_of_read h rfl rfl fun hread => absurd hread Bool.false_ne_true)
  | locks pc => exact .inl (shares_of_read h rfl rfl fun hread => .inl (of_decide_eq_true hread))
  | sweeps rest o' pc get =>
      refine .inl (shares_of_read h rfl rfl fun hread => .inr (.inl ?_))
      rw [pc]
      exact decide_eq_true (List.mem_of_mem_eraseIdx (of_decide_eq_true hread))

theorem workerMove_shares {s s' : State H} {i : Fin nWorkers} {es : List (Event H)} {o : Nat}
    (hmove : WorkerMove s i s' es) (h : s'.shares o) : s.shares o := by
  -- what the worker still has to do is on the stream in hand
  have hless : ∀ {op rest}, (s.workers i).todo = op :: rest →
      Worker.holdsStream o { s.workers i with todo := rest } → s.shares o := fun htodo hholds =>
    .inr (.inr ⟨i, hholds.imp_left fun hhand =>
      ⟨hhand.1, by rw [htodo]; exact List.cons_ne_nil _ _⟩⟩)
  cases hmove with
  | take m rest idle queue worker =>
      refine shares_of_worker h id id rfl fun hholds => .inr (.inr ⟨i, .inr ?_⟩)
      rw [worker] at hholds
      rw [queue]
      rcases hholds with ⟨ho, -⟩ | ⟨m', hm', ho⟩
      · exact ⟨m, List.mem_cons_self, ho⟩
      · exact ⟨m', List.mem_cons_of_mem m hm', ho⟩
  | spawn rest todo | push data rest st todo obj | close rest todo
  | reply op rest g todo isReply side queue fin => exact shares_of_worker h id id rfl (hless todo)
  | remove rest st todo obj unlocked => exact shares_of_worker h shares_erase id rfl (hless todo)

/-- **Release.**  The connection makes no clone of an `Arc` of which it has none. -/
theorem shares_step {s s' : State H} {a : Action H} {es : List (Event H)}
    (hs : s.step a = some (s', es)) {o : Nat} (h : s'.shares o) :
    s.shares o ∨ s.objs[o]? = none := by
  cases a with
  | readTask pick => exact taskMove_shares (task_step hs) h
  | workerRecv i => exact .inl (workerMove_shares (workerRecv_move hs) h)
  | workerRun i => exact .inl (workerMove_shares (workerRun_move hs) h)
  | read f =>
      simp only [State.step, State.readFrame] at hs
      split at hs
      · cases hs
        exact .inl (shares_of_read h rfl rfl fun hread =>
          absurd hread (ne_true_of_eq_false (dispatch_holds f o)))
      · cases hs
  | readFail | readPanic =>
      simp only [State.step, State.readEnds] at hs
      split at hs
      · cases hs
        exact .inl (shares_of_read h rfl rfl fun hread => absurd hread Bool.false_ne_true)
      · cases hs
  | _ =>
      have haside := (aside_step rfl hs).aside
      refine .inl (shares_of_read h haside.streams haside.workers fun hread => .inr (.inl ?_))
      rwa [haside.readTask] at hread

/-! ## The stream on the connection -/

/-- The teardown closes streams that it has before it. -/
theorem shares_of_sweeps {s : State H} {a : Action H} {o : Nat} (h : s.sweeps o a = true) :
    s.shares o := by
  cases a with
  | readTask pick =>
      simp only [State.sweeps] at h
      split at h
      · rename_i rest hpc
        have hmem := List.mem_of_getElem? (of_decide_eq_true h)
        exact .inr (.inl (by rw [hpc]; exact decide_eq_true hmem))
      · cases h
  | _ => cases h

section

variable {guard : List (Event H) → State H → Action H → Prop} {evs : List (Event H)} {s : State H}

/-- A step of the connection as it is on one stream: one that the handle takes, or none. -/
inductive FollowsStep (o : Nat) (s' : State H) (es : List (Event H)) (x : Handle H) : Prop where
  | step (ra : ReadAction H) (r' : Reader H) (res : List ReadEvent)
      (permitted : x.permits ra = true)
      (step : x.reader.step ra = some (r', res)) (reads : ReadsAs o s' r')
      (same : SamePayloads o es res)
  | stay (reads : ReadsAs o s' x.reader) (same : SamePayloads o es [])

theorem follows_step (hrun : (connection H).Run guard evs s) {s' : State H} {a : Action H}
    {es : List (Event H)} (hs : s.step a = some (s', es)) {o : Nat} {x : Handle H}
    (h : ReadsAs o s x.reader) (hshared : s.shares o → x.shared = true) :
    FollowsStep o s' es x := by
  have hobj : ∀ {st}, s.objs[o]? = some st → st = x.reader.stream := fun hst =>
    Option.some.inj (hst.symm.trans h.stream)
  have hidle : decide (x.reader.poll = .idle) = true := decide_eq_true h.poll
  cases stream_step hrun hs o with
  | call j alt pc st out action get obj outcome now calls events =>
      obtain rfl := hobj obj
      have hpc : x.reader.calls j = some pc := (h.calls j).trans get
      have hstep : x.reader.step (.call j alt s.writeChannel) = some ({ x.reader with
          stream := out.stream
          registered := x.reader.registered && !Reader.takesWaker out.pc }.setCall j out.pc,
          out.effects.flatMap Reader.callEvent) := by
        simp only [Reader.step, Reader.stepCall, hpc, outcome]
      refine .step (.call j alt s.writeChannel) _ _ hidle hstep
        ⟨now, fun i => ?_, h.poll, h.unread⟩ ?_
      · rw [calls, ← h.calls]
        exact Function.update_apply ..
      · obtain ⟨hkept, hdelivered⟩ := callEvent_kept j o out.effects
        rw [events]
        exact ⟨(Reader.callEvent_pushed _).trans hkept.symm,
          (Reader.callEvent_delivered _).trans hdelivered.symm⟩
  | cancel j pc pc' st st' action get obj outcome now calls events =>
      obtain rfl := hobj obj
      have hpc : x.reader.calls j = some pc := (h.calls j).trans get
      have hstep : x.reader.step (.cancel j) =
          some ({ x.reader with stream := st' }.setCall j pc', []) := by
        simp only [Reader.step, Reader.cancelCall, hpc, outcome]
      refine .step (.cancel j) _ _ hidle hstep ⟨now, fun i => ?_, h.poll, h.unread⟩ ?_
      · rw [calls, ← h.calls]
        exact Function.update_apply ..
      · rw [events]
        exact ⟨rfl, rfl⟩
  | invoke j q action fresh now calls events =>
      have hnone : x.reader.calls j = none := (h.calls j).trans fresh
      have hstep : x.reader.step (.invoke j q) = some (x.reader.setCall j q.entry, []) :=
        if_pos hnone
      refine .step (.invoke j q) _ _ hidle hstep
        ⟨now.trans h.stream, fun i => ?_, h.poll, h.unread⟩ ?_
      · rw [calls, ← h.calls]
        exact Function.update_apply ..
      · rw [events]
        exact ⟨rfl, rfl⟩
  | work i op rest st action stream todo obj now calls events =>
      obtain rfl := hobj obj
      obtain ⟨hstream, hcalls, hunread, hpoll, -⟩ := x.reader.work_eq op
      have hheld : s.shares o :=
        .inr (.inr ⟨i, .inl ⟨stream, by rw [todo]; exact List.cons_ne_nil _ _⟩⟩)
      refine .step (.work op) (x.reader.work op).1 (x.reader.work op).2 (hshared hheld) rfl
        ⟨?_, fun j => ?_, hpoll.trans h.poll, hunread.trans h.unread⟩ ?_
      · rw [now, hstream]
      · rw [hcalls, h.calls, calls]
      · rw [events]
        obtain ⟨hpushed, hdelivered⟩ := work_payloads x.reader o op
          (s.streams.lookup x.reader.stream.streamId)
        exact ⟨hpushed, hdelivered⟩
  | sweep st sweeps obj now calls events =>
      obtain rfl := hobj obj
      refine .step (.work .closeRemote) _ _ (hshared (shares_of_sweeps sweeps)) rfl
        ⟨now, fun j => ?_, h.poll, h.unread⟩ ?_
      · rw [calls]
        exact h.calls j
      · rw [events]
        exact ⟨rfl, rfl⟩
  | make f pc before now calls events =>
      rw [h.stream] at before
      cases before
  | other same calls unswept silent sent =>
      obtain ⟨hkept, hdelivered⟩ := keptFor_of_silent silent
      refine .stay ⟨same.trans h.stream, fun j => ?_, h.poll, h.unread⟩
        ⟨hkept.symm, hdelivered.symm⟩
      rw [calls]
      exact h.calls j

/-- The stream and its calls are as on the connection, and the connection has a clone of
the `Arc` if it has one there. -/
structure HandledAs (o : Nat) (s : State H) (x : Handle H) : Prop where
  reads : ReadsAs o s x.reader
  shared : x.shared = true ↔ s.shares o

/-- The handle lets go of the stream when the connection has. -/
theorem handled_of_reads {st₀ : Stream H} {revs : List ReadEvent} {x : Handle H} {o : Nat}
    (h : (handle st₀).Reached revs x) (hreads : ReadsAs o s x.reader)
    (hshared : s.shares o → x.shared = true) :
    ∃ x', (handle st₀).Reached revs x' ∧ HandledAs o s x' := by
  by_cases hshares : s.shares o
  · exact ⟨x, h, hreads, iff_of_true (hshared hshares) hshares⟩
  · have hstep : (handle st₀).step x .release = some ({ x with shared := false }, []) := rfl
    have hnext := h.step trivial hstep
    rw [List.append_nil] at hnext
    exact ⟨_, hnext, hreads, iff_of_false Bool.false_ne_true hshares⟩

/-- **One stream.**  A stream of the connection, the calls on it and the access to it are
as those of a handle on which `poll_read` is not called. -/
theorem handle_follows (h : (connection H).Run guard evs s) {o : Nat} {st : Stream H}
    (hst : s.objs[o]? = some st) :
    ∃ (st₀ : Stream H) (revs : List ReadEvent) (x : Handle H), (handle st₀).Reached revs x ∧
      HandledAs o s x ∧ SamePayloads o evs revs := by
  refine (h.invariant (I := fun evs s => (s.objs[o]? = none → SamePayloads o evs []) ∧
    ∀ st, s.objs[o]? = some st → ∃ (st₀ : Stream H) (revs : List ReadEvent) (x : Handle H),
      (handle st₀).Reached revs x ∧ HandledAs o s x ∧ SamePayloads o evs revs) ?_ ?_).2 st hst
  · exact ⟨fun _ => ⟨rfl, rfl⟩, fun st hst => by cases hst⟩
  · intro evs es s s' a hrun _ hs ih
    cases hst : s.objs[o]? with
    | some st =>
        obtain ⟨st₀, revs, x, hreached, hhandled, hsame⟩ := ih.2 st hst
        have hshares : s'.shares o → x.shared = true := fun hnow => by
          refine hhandled.shared.mpr ((shares_step hs hnow).resolve_right fun hnone => ?_)
          rw [hst] at hnone
          cases hnone
        cases follows_step hrun hs hhandled.reads hhandled.shared.mpr with
        | step ra r' res permitted step reads same =>
            have hstep : (handle st₀).step x (.stream ra) = some (x.after ra r', res) := by
              simp [handle, Handle.step, permitted, step]
            obtain ⟨x', hreached', hhandled'⟩ :=
              handled_of_reads (hreached.step trivial hstep) reads hshares
            refine ⟨fun hnone => ?_, fun _ _ =>
              ⟨st₀, _, x', hreached', hhandled', hsame.append same⟩⟩
            rw [reads.stream] at hnone
            cases hnone
        | stay reads same =>
            obtain ⟨x', hreached', hhandled'⟩ := handled_of_reads hreached reads hshares
            refine ⟨fun hnone => ?_, fun _ _ => ⟨st₀, revs, x', hreached', hhandled', ?_⟩⟩
            · rw [reads.stream] at hnone
              cases hnone
            · simpa using hsame.append same
    | none =>
        have hbefore := ih.1 hst
        cases stream_step hrun hs o with
        | make f pc before now calls events =>
            have hnew : SamePayloads o es [] := by
              rw [events]
              exact ⟨rfl, rfl⟩
            refine ⟨fun hnone => ?_, fun st' hst' => ?_⟩
            · rw [now] at hnone
              cases hnone
            · have hreads : ReadsAs o s' (Reader.start st') := by
                refine ⟨?_, fun j => ?_, rfl, rfl⟩
                · rw [now] at hst'
                  cases hst'
                  exact now
                · rw [calls]
                  exact (pcOf_none hrun before j).symm
              have hstart : (handle st').Reached [] (handle st').start := Machine.Run.start
              obtain ⟨x', hreached', hhandled'⟩ := handled_of_reads hstart hreads fun _ => rfl
              exact ⟨st', [], x', hreached', hhandled', hbefore.append hnew⟩
        | other same calls unswept silent sent =>
            obtain ⟨hkept, hdelivered⟩ := keptFor_of_silent silent
            refine ⟨fun _ => hbefore.append ⟨hkept.symm, hdelivered.symm⟩, fun st' hst' => ?_⟩
            rw [same, hst] at hst'
            cases hst'
        | invoke j q action fresh now calls events =>
            have hinvoked : SamePayloads o es [] := by
              rw [events]
              exact ⟨rfl, rfl⟩
            refine ⟨fun _ => hbefore.append hinvoked, fun st' hst' => ?_⟩
            rw [now, hst] at hst'
            cases hst'
        | call _ _ _ _ _ _ _ obj | cancel _ _ _ _ _ _ _ obj | work _ _ _ _ _ _ _ obj
        | sweep _ _ obj => cases hst.symm.trans obj

/-- It is also as a stream to which access is not controlled. -/
theorem reader_follows (h : (connection H).Run guard evs s) {o : Nat} {st : Stream H}
    (hst : s.objs[o]? = some st) :
    ∃ (st₀ : Stream H) (revs : List ReadEvent) (r : Reader H), (reader st₀).Reached revs r ∧
      ReadsAs o s r ∧ SamePayloads o evs revs := by
  obtain ⟨st₀, revs, x, hreached, hhandled, hsame⟩ := handle_follows h hst
  exact ⟨st₀, revs, x.reader, reader_of_handle hreached, hhandled.reads, hsame⟩

end

/-- A stream is reset with two payloads in its channel: the connection has let go of it. -/
example : ∃ evs s, (connection Unit).Reached evs s ∧ ¬ s.shares 0 ∧
    s.objs[0]?.map Stream.dataQueue = some [[1, 2], [3]] := by
  obtain ⟨evs, s, h, hcheck⟩ := Machine.exists_run_of_exec (connection Unit) Machine.free
    (registers (plainSyn 1 0) ++ applies (.synStream (plainSyn 1 0)) ++
      [.data { streamId := 1, flags := 0, data := [1, 2] },
        .data { streamId := 1, flags := 0, data := [3] },
        .rstStream { streamId := 1, status := .cancel }].flatMap
          fun f : Frame Unit => routes f ++ applies f)
    (fun _ s => decide (¬ s.shares 0 ∧ s.objs[0]?.map Stream.dataQueue = some [[1, 2], [3]]))
    (by decide +kernel)
  exact ⟨evs, s, h, of_decide_eq_true hcheck⟩

end SpdyStream.Session
