/-
  Session/Routing.lean --- which frames reach which stream, and in which order.

  The read task routes a frame of a stream by looking its id up and sending it to
  the worker of that id; the worker applies what it receives, one message at a
  time.  For one stream this is a queue: what is routed to it goes in, what is
  applied comes out, and what is held is in the channel of its worker or in the
  hands of the read task.  All frames of a stream go through the same worker,
  which is why the order survives.
-/
import SpdyStream.Session.Registry

set_option autoImplicit false

namespace SpdyStream.Session

open SpdyStream.Foundation
open SpdyStream.Framing

variable {H : Type}

/-! ## Logs -/

/-- The frames routed to stream `o`: its SYN_STREAM, and those whose lookup found
it. -/
def Event.routedTo (o : Nat) : Event H → List (Frame H)
  | .accepted o' f => if o' = o then [.synStream f] else []
  | .lookedUp f (some o') => if o' = o then [f] else []
  | _ => []

/-- The frames whose lookup found stream `o`. -/
def Event.foundFor (o : Nat) : Event H → List (Frame H)
  | .lookedUp f (some o') => if o' = o then [f] else []
  | _ => []

/-- The frames for stream `o` that were sent to a worker. -/
def Event.forwardedTo (o : Nat) : Event H → List (Frame H)
  | .forwarded o' f => if o' = o then [f] else []
  | _ => []

/-- The frames a worker has applied to stream `o`. -/
def Event.appliedTo (o : Nat) : Event H → List (Frame H)
  | .applied o' f => if o' = o then [f] else []
  | _ => []

/-- The operations a worker has done on stream `o`. -/
def Event.workedOn (o : Nat) : Event H → List WorkerOp
  | .worked o' op => if o' = o then [op] else []
  | _ => []

/-- The frames of streams that were read. -/
def Event.routableRead : Event H → List (Frame H)
  | .read f => if isRoutable f then [f] else []
  | _ => []

/-- The frames that were looked up. -/
def Event.lookupOf : Event H → List (Frame H)
  | .lookedUp f _ => [f]
  | _ => []

/-- The messages for stream `o` in the channel of a worker. -/
def Worker.queuedFor (o : Nat) (w : Worker H) : List (Frame H) :=
  (w.queue.filter fun m => m.stream = o).map WorkerMsg.frame

/-- The messages for stream `o` in the channels of the workers. -/
def State.inQueues (o : Nat) (s : State H) : List (Frame H) :=
  (List.finRange nWorkers).flatMap fun i => (s.workers i).queuedFor o

/-- What is left to do of the message in hand, if it is one of stream `o`. -/
def Worker.todoFor (o : Nat) (w : Worker H) : List WorkerOp := if w.stream = o then w.todo else []

/-- What the read task has routed to stream `o` and not sent yet. -/
def ReadTask.heldFor (o : Nat) : ReadTask H → List (Frame H)
  | .storeLast f o' => if o' = o then [.synStream f] else []
  | .forward o' f => if o' = o then [f] else []
  | _ => []

/-- What the read task is about to look up. -/
def ReadTask.pendingLookup : ReadTask H → List (Frame H)
  | .lookup f => [f]
  | _ => []

theorem ReadTask.heldFor_of_holdsFrame {t : ReadTask H} (h : t.holdsFrame = false) (o : Nat) :
    t.heldFor o = [] := by
  cases t with
  | storeLast _ _ | forward _ _ => cases h
  | _ => rfl

theorem ReadTask.pendingLookup_of_holdsFrame {t : ReadTask H} (h : t.holdsFrame = false) :
    t.pendingLookup = [] := by
  cases t with
  | lookup _ => cases h
  | _ => rfl

theorem dispatch_heldFor (f : Frame H) (o : Nat) : (dispatch f).heldFor o = [] := by
  rcases dispatch_cases f with ⟨hplain, -⟩ | ⟨g, rfl, -, hnext⟩ | ⟨-, hnext⟩
  · exact ReadTask.heldFor_of_holdsFrame (ReadTask.holdsFrame_of_isPlain hplain) o
  · rw [hnext]
    rfl
  · rw [hnext]
    rfl

theorem missing_holdsFrame (f : Frame H) : (missing f).holdsFrame = false :=
  ReadTask.holdsFrame_of_isPlain (missing_isPlain f)

theorem Event.routing_quiet {e : Event H} (h : e.isQuiet = true) (o : Nat) :
    e.routedTo o = [] ∧ e.forwardedTo o = [] ∧ e.appliedTo o = [] ∧ e.workedOn o = [] := by
  cases e with
  | accepted _ _ | lookedUp _ _ | forwarded _ _ | applied _ _ | worked _ _ => cases h
  | _ => exact ⟨rfl, rfl, rfl, rfl⟩

/-- A message put into one channel is behind the others of its stream there. -/
theorem queuedFor_put (ws : Fin nWorkers → Worker H) (i j : Fin nWorkers) (o o' : Nat)
    (f : Frame H) :
    (Function.update ws i
      { ws i with queue := (ws i).queue ++ [{ frame := f, stream := o' }] } j).queuedFor o =
      (ws j).queuedFor o ++ if j = i ∧ o' = o then [f] else [] := by
  by_cases hj : j = i
  · subst hj
    rw [Function.update_self]
    simp only [Worker.queuedFor, List.filter_append, List.map_append, true_and]
    split
    · rename_i ho
      simp [ho]
    · rename_i ho
      simp [ho]
  · rw [Function.update_of_ne hj]
    simp [hj]

/-- A message taken from a channel was in front of the others of its stream. -/
theorem queuedFor_take {ws : Fin nWorkers → Worker H} {i : Fin nWorkers} {m : WorkerMsg H}
    {rest : List (WorkerMsg H)} (h : (ws i).queue = m :: rest) (j : Fin nWorkers) (o n : Nat)
    (todo : List WorkerOp) :
    (ws j).queuedFor o = (if j = i ∧ m.stream = o then [m.frame] else []) ++
      (Function.update ws i { queue := rest, stream := n, todo := todo } j).queuedFor o := by
  by_cases hj : j = i
  · subst hj
    rw [Function.update_self]
    simp only [Worker.queuedFor, h, true_and]
    split
    · rename_i ho
      simp [ho]
    · rename_i ho
      simp [ho]
  · rw [Function.update_of_ne hj]
    simp [hj]

/-- A worker that goes on with its message leaves its channel. -/
theorem queuedFor_work (ws : Fin nWorkers → Worker H) (i j : Fin nWorkers) (o : Nat)
    (todo : List WorkerOp) :
    (Function.update ws i { ws i with todo := todo } j).queuedFor o = (ws j).queuedFor o := by
  by_cases hj : j = i
  · subst hj
    rw [Function.update_self]
    rfl
  · rw [Function.update_of_ne hj]

/-! ## Every message is with the right worker -/

/-- A worker holds messages of its own streams only, under the streams' ids. -/
structure Worker.Sound (ids : List UInt32) (i : Fin nWorkers) (w : Worker H) : Prop where
  queue : ∀ m ∈ w.queue, ids[m.stream]? = some m.frame.target ∧ workerIdx m.frame.target = i
  todo : w.todo ≠ [] → ∃ k, ids[w.stream]? = some k ∧ workerIdx k = i

/-- What a step does to the workers. -/
inductive WorkersMove (s s' : State H) (es : List (Event H)) : Prop where
  | same (workers : s'.workers = s.workers)
      (silent : ∀ o, es.flatMap (Event.forwardedTo o) = [] ∧ es.flatMap (Event.appliedTo o) = [] ∧
        es.flatMap (Event.workedOn o) = [])
  | put (o : Nat) (f : Frame H) (pc : s.readTask = .forward o f)
      (workers : s'.workers = Function.update s.workers (workerIdx f.target)
        { s.workers (workerIdx f.target) with
          queue := (s.workers (workerIdx f.target)).queue ++ [{ frame := f, stream := o }] })
      (events : es = [.forwarded o f])
  | take (i : Fin nWorkers) (m : WorkerMsg H) (rest : List (WorkerMsg H))
      (idle : (s.workers i).todo = []) (queue : (s.workers i).queue = m :: rest)
      (workers : s'.workers = Function.update s.workers i
        { queue := rest, stream := m.stream, todo := workerOps m.frame })
      (events : es = [.applied m.stream m.frame])
  | work (i : Fin nWorkers) (op : WorkerOp) (rest : List WorkerOp)
      (todo : (s.workers i).todo = op :: rest)
      (workers : s'.workers = Function.update s.workers i { s.workers i with todo := rest })
      (silent : ∀ o, es.flatMap (Event.forwardedTo o) = [] ∧ es.flatMap (Event.appliedTo o) = [])
      (worked : ∀ o, es.flatMap (Event.workedOn o) = if (s.workers i).stream = o then [op] else [])

theorem WorkerMove.workers {s s' : State H} {i : Fin nWorkers} {es : List (Event H)}
    (h : WorkerMove s i s' es) : WorkersMove s s' es := by
  cases h with
  | take m rest idle queue worker => exact .take i m rest idle queue (by rw [worker]) rfl
  | spawn rest todo | push _ rest _ todo _ | close rest todo | remove rest _ todo _ _
  | reply _ rest _ todo _ _ _ _ =>
      exact .work i _ rest todo rfl (fun _ => ⟨rfl, rfl⟩) fun o => by simp [Event.workedOn]

theorem workers_step {s s' : State H} {a : Action H} {es : List (Event H)}
    (hs : s.step a = some (s', es)) : WorkersMove s s' es := by
  have hquiet : ∀ {es : List (Event H)}, (∀ e ∈ es, e.isQuiet = true) → ∀ o,
      es.flatMap (Event.forwardedTo o) = [] ∧ es.flatMap (Event.appliedTo o) = [] ∧
        es.flatMap (Event.workedOn o) = [] := fun hes o =>
    ⟨flatMap_quiet (fun _ he => (Event.routing_quiet he o).2.1) hes,
      flatMap_quiet (fun _ he => (Event.routing_quiet he o).2.2.1) hes,
      flatMap_quiet (fun _ he => (Event.routing_quiet he o).2.2.2) hes⟩
  cases step_kind hs with
  | aside ha => exact .same ha.workers (hquiet ha.quiet)
  | read f pc state events =>
      refine .same (by rw [state]) fun o => ?_
      rw [events]
      exact ⟨flatMap_rejectedAtOnce (Event.forwardedTo o) (fun _ _ => rfl) f,
        flatMap_rejectedAtOnce (Event.appliedTo o) (fun _ _ => rfl) f,
        flatMap_rejectedAtOnce (Event.workedOn o) (fun _ _ => rfl) f⟩
  | move hmove =>
      cases hmove with
      | plain still before next loop mute => exact .same still.workers fun _ => ⟨rfl, rfl, rfl⟩
      | answer f c es pc channel events => exact .same rfl (hquiet (answer_quiet events))
      | deliver o f pc worker => exact .put o f pc (by rw [worker]) rfl
      | _ => exact .same rfl fun _ => ⟨rfl, rfl, rfl⟩
  | worker i hmove => exact hmove.workers

variable {guard : List (Event H) → State H → Action H → Prop} {evs : List (Event H)} {s : State H}

theorem workers_sound (h : (connection H).Run guard evs s) (i : Fin nWorkers) :
    (s.workers i).Sound s.ids i := by
  refine h.invariant (I := fun _ s => ∀ i, (s.workers i).Sound s.ids i) ?_ ?_ i
  · intro i
    exact ⟨by simp [connection, State.initial], fun h => absurd rfl h⟩
  · intro evs es s s' a hrun _ hs ih i
    have hgrow : ∀ {o : Nat} {k : UInt32}, s.ids[o]? = some k → s'.ids[o]? = some k := ids_grow hs
    have hold : (s.workers i).Sound s'.ids i := by
      refine ⟨fun m hm => ?_, fun hne => ?_⟩
      · exact ((ih i).queue m hm).imp_left hgrow
      · obtain ⟨k, hk, hidx⟩ := (ih i).todo hne
        exact ⟨k, hgrow hk, hidx⟩
    cases workers_step hs with
    | same workers silent =>
        rw [workers]
        exact hold
    | put o f pc workers events =>
        rw [workers]
        by_cases hi : i = workerIdx f.target
        · subst hi
          rw [Function.update_self]
          refine ⟨fun m hm => ?_, hold.todo⟩
          rcases List.mem_append.mp hm with hm | hm
          · exact hold.queue m hm
          · have htask := (registry_run hrun).task
            rw [pc] at htask
            rw [List.mem_singleton.mp hm]
            exact ⟨hgrow htask, rfl⟩
        · rw [Function.update_of_ne hi]
          exact hold
    | take j m rest idle queue workers events =>
        rw [workers]
        by_cases hi : i = j
        · subst hi
          rw [Function.update_self]
          have hmem : ∀ m' ∈ rest, m' ∈ (s.workers i).queue := fun m' hm' => by
            rw [queue]
            exact List.mem_cons_of_mem m hm'
          refine ⟨fun m' hm' => hold.queue m' (hmem m' hm'), fun _ => ?_⟩
          have hm := hold.queue m (by rw [queue]; exact List.mem_cons_self)
          exact ⟨_, hm⟩
        · rw [Function.update_of_ne hi]
          exact hold
    | work j op rest todo workers silent worked =>
        rw [workers]
        by_cases hi : i = j
        · subst hi
          rw [Function.update_self]
          exact ⟨hold.queue, fun _ => hold.todo (by rw [todo]; exact List.cons_ne_nil _ _)⟩
        · rw [Function.update_of_ne hi]
          exact hold

/-! ## The worker of a stream -/

/-- The worker that applies the frames of stream `o`, once there is one. -/
def State.home (o : Nat) (s : State H) : Fin nWorkers :=
  match s.ids[o]? with
  | none => workerIdx 0
  | some k => workerIdx k

theorem home_of_id {s : State H} {o : Nat} {k : UInt32} (h : s.ids[o]? = some k) :
    s.home o = workerIdx k := by
  rw [State.home, h]

/-- The worker that takes a message of a stream is the stream's, before a step as after
it. -/
theorem home_of_take {s s' : State H} {a : Action H} {es : List (Event H)} {i : Fin nWorkers}
    (hsound : (s.workers i).Sound s.ids i) (hs : s.step a = some (s', es)) {m : WorkerMsg H}
    {rest : List (WorkerMsg H)} (queue : (s.workers i).queue = m :: rest) {o : Nat}
    (ho : m.stream = o) : i = s'.home o := by
  subst ho
  obtain ⟨hid, hidx⟩ := hsound.queue m (queue ▸ List.mem_cons_self)
  rw [home_of_id (ids_grow hs hid), hidx]

theorem home_of_work {s s' : State H} {a : Action H} {es : List (Event H)} {i : Fin nWorkers}
    (hsound : (s.workers i).Sound s.ids i) (hs : s.step a = some (s', es)) {op : WorkerOp}
    {rest : List WorkerOp} (todo : (s.workers i).todo = op :: rest) {o : Nat}
    (ho : (s.workers i).stream = o) : i = s'.home o := by
  subst ho
  obtain ⟨k, hid, hidx⟩ := hsound.todo (todo ▸ List.cons_ne_nil _ _)
  rw [home_of_id (ids_grow hs hid), hidx]

/-- A stream that has not been made has nothing with any worker. -/
theorem nothing_for_none {s : State H} {o : Nat} {i : Fin nWorkers}
    (hsound : (s.workers i).Sound s.ids i) (ho : s.ids[o]? = none) :
    (s.workers i).queuedFor o = [] ∧ (s.workers i).todoFor o = [] := by
  constructor
  · rw [Worker.queuedFor, List.map_eq_nil_iff, List.filter_eq_nil_iff]
    intro m hm hmo
    cases ho.symm.trans (of_decide_eq_true hmo ▸ (hsound.queue m hm).1)
  · rw [Worker.todoFor]
    split
    · rename_i hstream
      by_contra htodo
      obtain ⟨k, hid, -⟩ := hsound.todo htodo
      cases ho.symm.trans (hstream ▸ hid)
    · rfl

/-- The worker of a stream is the same before and after a step, as far as the
stream has anything there. -/
theorem at_home {s s' : State H} {a : Action H} {es : List (Event H)}
    (hsound : ∀ i, (s.workers i).Sound s.ids i) (hs : s.step a = some (s', es)) (o : Nat) :
    (s.workers (s.home o)).queuedFor o = (s.workers (s'.home o)).queuedFor o ∧
      (s.workers (s.home o)).todoFor o = (s.workers (s'.home o)).todoFor o := by
  cases hid : s.ids[o]? with
  | some k =>
      rw [home_of_id hid, home_of_id (ids_grow hs hid)]
      exact ⟨rfl, rfl⟩
  | none =>
      obtain ⟨hqueue, htodo⟩ := nothing_for_none (hsound (s.home o)) hid
      obtain ⟨hqueue', htodo'⟩ := nothing_for_none (hsound (s'.home o)) hid
      exact ⟨hqueue.trans hqueue'.symm, htodo.trans htodo'.symm⟩

/-! ## The way of a frame -/

/-- What is routed to a stream is sent to a worker, one by one. -/
theorem routed_eq_forwarded (h : (connection H).Run guard evs s) (o : Nat) :
    evs.flatMap (Event.routedTo o) =
      evs.flatMap (Event.forwardedTo o) ++ s.readTask.heldFor o := by
  refine h.conserved (fun s : State H => s.readTask.heldFor o) rfl ?_
  intro evs es s s' a _ _ hs
  cases step_kind hs with
  | aside ha =>
      rw [ha.readTask, flatMap_quiet (fun _ he => (Event.routing_quiet he o).1) ha.quiet,
        flatMap_quiet (fun _ he => (Event.routing_quiet he o).2.1) ha.quiet]
      exact List.append_nil _
  | read f pc state events =>
      have hrouted := flatMap_rejectedAtOnce (Event.routedTo o) (fun _ _ => rfl) f
      have hforwarded := flatMap_rejectedAtOnce (Event.forwardedTo o) (fun _ _ => rfl) f
      rw [state, events, pc, List.flatMap_cons, List.flatMap_cons, hrouted, hforwarded,
        dispatch_heldFor f o]
      rfl
  | move hmove =>
      cases hmove with
      | plain still before next loop mute =>
          rw [ReadTask.heldFor_of_holdsFrame before o,
            ReadTask.heldFor_of_holdsFrame (ReadTask.holdsFrame_of_isPlain next) o]
          rfl
      | answer f c es pc channel events =>
          rw [ReadTask.heldFor_of_holdsFrame (ReadTask.holdsFrame_of_answer pc) o,
            flatMap_quiet (fun _ he => (Event.routing_quiet he o).1) (answer_quiet events),
            flatMap_quiet (fun _ he => (Event.routing_quiet he o).2.1) (answer_quiet events)]
          rfl
      | missed f pc miss =>
          rw [pc]
          exact (ReadTask.heldFor_of_holdsFrame (missing_holdsFrame f) o).symm
      | stale f pc _ | checked f pc _ | refused f pc _ | passed f pc _ | taken f pc _
      | accept f pc _ | publish f _ pc | found f _ pc _ | deliver _ f pc _ =>
          rw [pc]
          simp [ReadTask.heldFor, Event.routedTo, Event.forwardedTo]
  | worker i hmove =>
      cases hmove with
      | _ => exact List.append_nil _

/-- What is sent to a worker for a stream is applied, one by one. -/
theorem forwarded_eq_applied (h : (connection H).Run guard evs s) (o : Nat) :
    evs.flatMap (Event.forwardedTo o) =
      evs.flatMap (Event.appliedTo o) ++ (s.workers (s.home o)).queuedFor o := by
  refine h.conserved (fun s : State H => (s.workers (s.home o)).queuedFor o) rfl ?_
  intro evs es s s' a hrun _ hs
  have hsound := workers_sound hrun
  show (s.workers (s.home o)).queuedFor o ++ _ = _
  rw [(at_home hsound hs o).1]
  cases workers_step hs with
  | same workers silent =>
      rw [workers, (silent o).1, (silent o).2.1]
      exact List.append_nil _
  | put o' f pc workers events =>
      rw [workers, queuedFor_put, events]
      by_cases ho : o' = o
      · subst ho
        have htask := (registry_run hrun).task
        rw [pc] at htask
        have hhome : s'.home o' = workerIdx f.target := home_of_id (ids_grow hs htask)
        simp [Event.forwardedTo, Event.appliedTo, hhome]
      · simp [Event.forwardedTo, Event.appliedTo, ho]
  | take i m rest idle queue workers events =>
      have htake := queuedFor_take queue (s'.home o) o m.stream (workerOps m.frame)
      rw [workers, htake, events]
      by_cases ho : m.stream = o
      · have hhome := home_of_take (hsound i) hs queue ho
        simp [Event.forwardedTo, Event.appliedTo, ho, ← hhome]
      · simp [Event.forwardedTo, Event.appliedTo, ho]
  | work i op rest todo workers silent worked =>
      rw [workers, queuedFor_work, (silent o).1, (silent o).2]
      exact List.append_nil _

/-- What a worker does on a stream are the operations of the frames it applies to
it, one by one. -/
theorem ops_eq_worked (h : (connection H).Run guard evs s) (o : Nat) :
    (evs.flatMap (Event.appliedTo o)).flatMap workerOps =
      evs.flatMap (Event.workedOn o) ++ (s.workers (s.home o)).todoFor o := by
  rw [List.flatMap_assoc]
  have hstart : ((connection H).start.workers ((connection H).start.home o)).todoFor o = [] :=
    ite_self []
  refine h.conserved (fun s : State H => (s.workers (s.home o)).todoFor o) hstart ?_
  intro evs es s s' a hrun _ hs
  have hsound := workers_sound hrun
  show (s.workers (s.home o)).todoFor o ++ _ = _
  rw [(at_home hsound hs o).2, ← List.flatMap_assoc]
  cases workers_step hs with
  | same workers silent =>
      rw [workers, (silent o).2.1, (silent o).2.2]
      exact List.append_nil _
  | put o' f pc workers events =>
      have hput : (s'.workers (s'.home o)).todoFor o = (s.workers (s'.home o)).todoFor o := by
        rw [workers]
        by_cases hi : s'.home o = workerIdx f.target
        · rw [hi, Function.update_self]
          rfl
        · rw [Function.update_of_ne hi]
      rw [hput, events]
      exact List.append_nil _
  | take i m rest idle queue workers events =>
      rw [workers, events]
      by_cases ho : m.stream = o
      · have hhome := home_of_take (hsound i) hs queue ho
        simp [Event.appliedTo, Event.workedOn, Worker.todoFor, ho, ← hhome, idle]
      · by_cases hi : s'.home o = i
        · simp [Event.appliedTo, Event.workedOn, Worker.todoFor, ho, hi, idle]
        · rw [Function.update_of_ne hi]
          simp [Event.appliedTo, Event.workedOn, ho]
  | work i op rest todo workers silent worked =>
      rw [workers, (silent o).2, worked o]
      by_cases ho : (s.workers i).stream = o
      · have hhome := home_of_work (hsound i) hs todo ho
        simp [Worker.todoFor, ho, ← hhome, todo]
      · by_cases hi : s'.home o = i
        · simp [Worker.todoFor, ho, hi]
        · rw [Function.update_of_ne hi]
          simp [ho]

/-! ## What is routed to a stream -/

/-- A lookup finds what is in the map. -/
theorem lookedUp_step {s s' : State H} {a : Action H} {es : List (Event H)} {f : Frame H}
    {found : Option Nat} (hs : s.step a = some (s', es)) (he : .lookedUp f found ∈ es) :
    s.readTask = .lookup f ∧ found = s.streams.lookup f.target := by
  cases step_kind hs with
  | aside ha => cases ha.quiet _ he
  | read g pc state events =>
      rw [events] at he
      rcases List.mem_cons.mp he with he | he
      · cases he
      · obtain ⟨_, -, -, heq⟩ := mem_rejectedAtOnce he
        cases heq
  | move hmove =>
      cases hmove with
      | plain still before next loop mute => cases he
      | answer f c es pc channel events => cases answer_quiet events _ he
      | found g o pc hit =>
          cases List.mem_singleton.mp he
          exact ⟨pc, hit.symm⟩
      | missed g pc miss =>
          cases List.mem_singleton.mp he
          exact ⟨pc, miss.symm⟩
      | _ => simp at he
  | worker i hmove =>
      cases hmove with
      | _ => simp at he

/-- A frame found to be one of a stream has the stream's id. -/
theorem found_step {s s' : State H} {a : Action H} {es : List (Event H)} {o : Nat}
    (hreg : Registry s) (hs : s.step a = some (s', es)) :
    ∀ f ∈ es.flatMap (Event.foundFor o), isRoutable f = true ∧ s.ids[o]? = some f.target := by
  intro f hf
  obtain ⟨e, he, hfe⟩ := List.mem_flatMap.mp hf
  cases e with
  | lookedUp g found =>
      cases found with
      | none => cases hfe
      | some o' =>
          simp only [Event.foundFor] at hfe
          split at hfe
          · rename_i ho
            obtain ⟨hpc, hfound⟩ := lookedUp_step hs he
            have htask := hreg.task
            rw [hpc] at htask
            rw [List.mem_singleton.mp hfe, ← ho]
            exact ⟨htask, hreg.owner _ _ hfound.symm⟩
          · cases hfe
  | _ => cases hfe

/-- Of a stream that is there only lookups are routed. -/
theorem routedTo_eq_foundFor {es : List (Event H)} {o : Nat} (h : ∀ f, .accepted o f ∉ es) :
    es.flatMap (Event.routedTo o) = es.flatMap (Event.foundFor o) := by
  refine List.flatMap_congr fun e he => ?_
  cases e with
  | accepted o' f =>
      refine if_neg ?_
      rintro rfl
      exact h f he
  | lookedUp f found =>
      cases found with
      | none => rfl
      | some o' => rfl
  | _ => rfl

/-- Nothing is routed to a stream that has not been made. -/
theorem routed_none (h : (connection H).Run guard evs s) {o : Nat} (ho : s.ids[o]? = none) :
    evs.flatMap (Event.routedTo o) = [] ∧ evs.flatMap (Event.foundFor o) = [] := by
  refine h.invariant (I := fun evs s => s.ids[o]? = none →
    evs.flatMap (Event.routedTo o) = [] ∧ evs.flatMap (Event.foundFor o) = []) ?_ ?_ ho
  · intro _
    exact ⟨rfl, rfl⟩
  · intro evs es s s' a hrun _ hs ih ho'
    have ho : s.ids[o]? = none := by
      cases hid : s.ids[o]? with
      | none => rfl
      | some k => cases (ids_grow hs hid).symm.trans ho'
    have hnone : ∀ f, .accepted o f ∉ es := fun f hf => by
      cases (accepted_step hs hf).2.2.symm.trans ho'
    have hfound : es.flatMap (Event.foundFor o) = [] := by
      rw [List.eq_nil_iff_forall_not_mem]
      intro f hf
      cases (found_step (registry_run hrun) hs f hf).2.symm.trans ho
    rw [List.flatMap_append, List.flatMap_append, (ih ho).1, (ih ho).2,
      routedTo_eq_foundFor hnone, hfound]
    exact ⟨rfl, rfl⟩

/-- What is routed to a stream is its SYN_STREAM, and then frames of its id. -/
theorem routed_log (h : (connection H).Run guard evs s) {o : Nat} {f₀ : SynStreamFrame H}
    (he : .accepted o f₀ ∈ evs) :
    evs.flatMap (Event.routedTo o) = .synStream f₀ :: evs.flatMap (Event.foundFor o) ∧
      ∀ f ∈ evs.flatMap (Event.foundFor o), isRoutable f = true ∧ f.target = f₀.streamId := by
  refine h.invariant (I := fun evs _ => .accepted o f₀ ∈ evs →
    evs.flatMap (Event.routedTo o) = .synStream f₀ :: evs.flatMap (Event.foundFor o) ∧
      ∀ f ∈ evs.flatMap (Event.foundFor o), isRoutable f = true ∧ f.target = f₀.streamId) ?_ ?_ he
  · intro he
    cases he
  · intro evs es s s' a hrun _ hs ih he
    rw [List.flatMap_append, List.flatMap_append]
    rcases List.mem_append.mp he with he | he
    · obtain ⟨hlog, hown⟩ := ih he
      have hid := accepted_id hrun he
      have hnone : ∀ f, .accepted o f ∉ es := fun f hf => by
        cases (accepted_step hs hf).2.1.symm.trans hid
      rw [hlog, routedTo_eq_foundFor hnone]
      refine ⟨rfl, fun f hf => ?_⟩
      rcases List.mem_append.mp hf with hf | hf
      · exact hown f hf
      · obtain ⟨hroutable, htarget⟩ := found_step (registry_run hrun) hs f hf
        exact ⟨hroutable, Option.some.inj (htarget.symm.trans hid)⟩
    · obtain ⟨hes, hnone, -⟩ := accepted_step hs he
      obtain ⟨hrouted, hfound⟩ := routed_none hrun hnone
      rw [hes, hrouted, hfound]
      simp [Event.routedTo, Event.foundFor]

/-! ## Lookups -/

theorem pendingLookup_dispatch (f : Frame H) :
    Event.routableRead (.read f) = (dispatch f).pendingLookup := by
  cases f with
  | synStream g =>
      simp only [dispatch]
      split
      · rfl
      · rfl
  | ping p =>
      simp only [dispatch]
      split
      · rfl
      · rfl
  | _ => rfl

theorem Event.lookup_quiet {e : Event H} (h : e.isQuiet = true) :
    e.routableRead = [] ∧ e.lookupOf = [] := by
  cases e with
  | read _ | lookedUp _ _ => cases h
  | _ => exact ⟨rfl, rfl⟩

/-- Every frame of a stream that is read is looked up once, in the order of
reading. -/
theorem lookups_eq (h : (connection H).Run guard evs s) :
    evs.flatMap Event.routableRead =
      evs.flatMap Event.lookupOf ++ s.readTask.pendingLookup := by
  refine h.conserved (fun s : State H => s.readTask.pendingLookup) rfl ?_
  intro evs es s s' a _ _ hs
  cases step_kind hs with
  | aside ha =>
      rw [ha.readTask, flatMap_quiet (fun _ he => (Event.lookup_quiet he).1) ha.quiet,
        flatMap_quiet (fun _ he => (Event.lookup_quiet he).2) ha.quiet]
      exact List.append_nil _
  | read f pc state events =>
      have hread := flatMap_rejectedAtOnce Event.routableRead (fun _ _ => rfl) f
      have hlookup := flatMap_rejectedAtOnce Event.lookupOf (fun _ _ => rfl) f
      rw [state, events, pc, List.flatMap_cons, List.flatMap_cons, hread, hlookup,
        pendingLookup_dispatch]
      exact List.append_nil _
  | move hmove =>
      cases hmove with
      | plain still before next loop mute =>
          rw [ReadTask.pendingLookup_of_holdsFrame before,
            ReadTask.pendingLookup_of_holdsFrame (ReadTask.holdsFrame_of_isPlain next)]
          rfl
      | answer f c es pc channel events =>
          rw [ReadTask.pendingLookup_of_holdsFrame (ReadTask.holdsFrame_of_answer pc),
            flatMap_quiet (fun _ he => (Event.lookup_quiet he).1) (answer_quiet events),
            flatMap_quiet (fun _ he => (Event.lookup_quiet he).2) (answer_quiet events)]
          rfl
      | missed f pc miss =>
          rw [pc, ReadTask.pendingLookup_of_holdsFrame (missing_holdsFrame f)]
          rfl
      | stale f pc _ | checked f pc _ | refused f pc _ | passed f pc _ | taken f pc _
      | accept f pc _ | publish f _ pc | found f _ pc _ | deliver _ f pc _ =>
          rw [pc]
          rfl
  | worker i hmove =>
      cases hmove with
      | _ => exact List.append_nil _

/-! ## All queues -/

theorem flatMap_eq_single {α β : Type} {l : List α} {f : α → List β} {a : α} (hnodup : l.Nodup)
    (ha : a ∈ l) (h : ∀ b ∈ l, b ≠ a → f b = []) : l.flatMap f = f a := by
  obtain ⟨l₁, l₂, rfl⟩ := List.append_of_mem ha
  have hside : ∀ l' : List α, (∀ b ∈ l', b ∈ l₁ ++ a :: l₂ ∧ b ≠ a) → l'.flatMap f = [] := by
    intro l' hl'
    exact List.flatMap_eq_nil_iff.mpr fun b hb => h b (hl' b hb).1 (hl' b hb).2
  obtain ⟨-, hcons, hdisjoint⟩ := List.nodup_append.mp hnodup
  have hleft : l₁.flatMap f = [] := hside l₁ fun b hb =>
    ⟨List.mem_append_left _ hb, hdisjoint b hb a List.mem_cons_self⟩
  have hright : l₂.flatMap f = [] := hside l₂ fun b hb => by
    refine ⟨List.mem_append_right _ (List.mem_cons_of_mem a hb), ?_⟩
    rintro rfl
    exact (List.nodup_cons.mp hcons).1 hb
  rw [List.flatMap_append, List.flatMap_cons, hleft, hright]
  exact List.append_nil _

/-- The frames of a stream are in the channel of its worker. -/
theorem inQueues_eq {s : State H} (hsound : ∀ i, (s.workers i).Sound s.ids i) (o : Nat) :
    s.inQueues o = (s.workers (s.home o)).queuedFor o := by
  refine flatMap_eq_single (List.nodup_finRange _) (List.mem_finRange _) fun i _ hi => ?_
  rw [Worker.queuedFor, List.map_eq_nil_iff, List.filter_eq_nil_iff]
  intro m hm hmo
  obtain ⟨hid, hidx⟩ := (hsound i).queue m hm
  rw [of_decide_eq_true hmo] at hid
  exact hi (by rw [home_of_id hid, hidx])

/-! ## Routing -/

/-- What is true of the frames of a stream that was accepted. -/
structure InOrder (evs : List (Event H)) (s : State H) (o : Nat) (f₀ : SynStreamFrame H) :
    Prop where
  /-- the stream has the id of the SYN_STREAM -/
  object : s.ids[o]? = some f₀.streamId
  /-- applied, in the channels, or in the hands of the read task: the SYN_STREAM
  and then the frames found to be the stream's, once each and in order -/
  order : evs.flatMap (Event.appliedTo o) ++ s.inQueues o ++ s.readTask.heldFor o =
    .synStream f₀ :: evs.flatMap (Event.foundFor o)
  /-- none of them has another id -/
  own : ∀ f ∈ evs.flatMap (Event.foundFor o), isRoutable f = true ∧ f.target = f₀.streamId
  /-- applying a frame is doing its operations on the stream -/
  done : (evs.flatMap (Event.appliedTo o)).flatMap workerOps =
    evs.flatMap (Event.workedOn o) ++ (s.workers (s.home o)).todoFor o

theorem inOrder_of_accepted (h : (connection H).Run guard evs s) {o : Nat}
    {f₀ : SynStreamFrame H} (he : .accepted o f₀ ∈ evs) : InOrder evs s o f₀ := by
  obtain ⟨hlog, hown⟩ := routed_log h he
  refine ⟨accepted_id h he, ?_, hown, ops_eq_worked h o⟩
  rw [← hlog, routed_eq_forwarded h o, forwarded_eq_applied h o,
    inQueues_eq (workers_sound h) o]

/-- Nothing is ever applied where no SYN_STREAM was accepted. -/
theorem applied_none (h : (connection H).Run guard evs s) {o : Nat}
    (hnone : ∀ f₀, .accepted o f₀ ∉ evs) :
    evs.flatMap (Event.appliedTo o) = [] ∧ s.inQueues o = [] := by
  have hid : s.ids[o]? = none := by
    cases hid : s.ids[o]? with
    | none => rfl
    | some k =>
        obtain ⟨f₀, hf₀, -⟩ := accepted_of_id h hid
        exact absurd hf₀ (hnone f₀)
  have hrouted := (routed_none h hid).1
  rw [routed_eq_forwarded h o, forwarded_eq_applied h o, List.append_eq_nil_iff,
    List.append_eq_nil_iff] at hrouted
  rw [inQueues_eq (workers_sound h) o]
  exact hrouted.1

/-- **Routing.**  At every moment of every run the frames of every stream are in
order; every frame of a stream that is read is looked up once, and belongs to the
stream that is in the map under its id at that moment. -/
theorem frames_inOrder (h : (connection H).Reached evs s) :
    (∀ o f₀, .accepted o f₀ ∈ evs → InOrder evs s o f₀) ∧
    (∀ o, (∀ f₀, .accepted o f₀ ∉ evs) →
      evs.flatMap (Event.appliedTo o) = [] ∧ s.inQueues o = []) ∧
    evs.flatMap Event.routableRead = evs.flatMap Event.lookupOf ++ s.readTask.pendingLookup ∧
    ∀ a s' es f found, s.step a = some (s', es) → .lookedUp f found ∈ es →
      found = s.streams.lookup f.target :=
  ⟨fun _ _ he => inOrder_of_accepted h he, fun _ hnone => applied_none h hnone, lookups_eq h,
    fun _ _ _ _ _ hs he => (lookedUp_step hs he).2⟩

/-- A run in which the worker has taken the SYN_STREAM, a DATA frame waits behind
it, and the read task has looked up another. -/
theorem frames_inOrder_threeFrames : ∃ evs s, (connection Unit).Reached evs s ∧
    (evs.flatMap (Event.appliedTo 0)).length = 1 ∧ (s.inQueues 0).length = 1 ∧
    (s.readTask.heldFor 0).length = 1 ∧ InOrder evs s 0 (plainSyn 1 0) := by
  let f : Frame Unit := .data { streamId := 1, flags := 0, data := [7] }
  obtain ⟨evs, s, h, hcheck⟩ := Machine.exists_run_of_exec (connection Unit) Machine.free
    (registers (plainSyn 1 0) ++ routes f ++
      [Action.workerRecv (workerIdx 1), .read f, .readTask 0])
    (fun evs s => decide (.accepted 0 (plainSyn 1 0) ∈ evs ∧
      (evs.flatMap (Event.appliedTo 0)).length = 1 ∧ (s.inQueues 0).length = 1 ∧
      (s.readTask.heldFor 0).length = 1))
    (by decide +kernel)
  obtain ⟨haccepted, happlied, hqueued, hheld⟩ := of_decide_eq_true hcheck
  exact ⟨evs, s, h, happlied, hqueued, hheld, (frames_inOrder h).1 0 (plainSyn 1 0) haccepted⟩

end SpdyStream.Session
