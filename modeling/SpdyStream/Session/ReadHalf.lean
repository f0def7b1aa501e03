/-
  Session/ReadHalf.lean --- `poll_read`, and one stream with all that is done to it.

  A `poll_read` keeps the remainder of a payload in `unread` and leaves its waker with
  the data channel; there is one at a time.  `reader` is the machine of one stream: its
  worker, the teardown and the calls of its handlers step as on the connection, and
  `poll_read` steps anywhere between them.  That it takes `&mut self` leaves fewer runs:
  those of `Session/Handle.lean`, where the stream is compared with the connection.
-/
import SpdyStream.Session.Readers

set_option autoImplicit false

namespace SpdyStream.Session

open SpdyStream.Foundation
open SpdyStream.Framing

variable {H : Type}

/-! ## poll_read -/

/-- The next operation of a `poll_read` into a buffer with room for `n` bytes. -/
inductive PollPc where
  | idle
  /-- the remainder buffer -/
  | unread (n : Nat)
  /-- `data_rx.try_lock()` -/
  | lock (n : Nat)
  /-- `rx.poll_recv(cx)` -/
  | recv (n : Nat)
  /-- `remote_closed_rx.borrow()` -/
  | borrow (n : Nat)
  deriving DecidableEq

/-- A stream, the calls on it, and its `poll_read`. -/
structure Reader (H : Type) where
  stream : Stream H
  /-- where the calls of the handlers are -/
  calls : Nat → Option (CallPc H)
  unread : Option Bytes
  poll : PollPc
  /-- the waker of the last `poll_read` is registered with the data channel -/
  registered : Bool
  /-- the task was woken after its last `poll_read` began -/
  woken : Bool
  /-- the last `poll_read` has returned `Pending` -/
  pending : Bool

/-- What happens to a stream. -/
inductive ReadAction (H : Type) where
  /-- the worker of the stream does an operation, or the teardown closes it -/
  | work (op : WorkerOp)
  | invoke (j : Nat) (r : Request H)
  /-- a call goes on, with the write channel `c` -/
  | call (j : Nat) (alt : Bool) (c : Channel H)
  | cancel (j : Nat)
  /-- `poll_read` is called with a buffer that has room for `n` bytes -/
  | poll (n : Nat)
  /-- it goes on; `poll_recv` may fail spuriously -/
  | pollStep (spurious : Bool)
  /-- its `try_lock` finds the free lock promised to the `j`-th call, which waits for it -/
  | pollRefused (j : Nat)

/-- The action is one of `poll_read`. -/
def ReadAction.isPoll : ReadAction H → Bool
  | .poll _ | .pollStep _ | .pollRefused _ => true
  | .work _ | .invoke _ _ | .call _ _ _ | .cancel _ => false

/-- What is seen of it. -/
inductive ReadEvent where
  /-- the data channel takes a payload -/
  | pushed (data : Bytes)
  | closed
  /-- `poll_read` returns `Ready(Ok(()))` and has put `data` where there was room for
  `n` bytes -/
  | filled (n : Nat) (data : Bytes)
  /-- `poll_read` returns `Pending` -/
  | pending
  /-- `read_data` returns a payload -/
  | delivered (data : Bytes)
  deriving DecidableEq

namespace Reader

/-- A payload comes to the data channel: it wakes whoever is registered there. -/
def notify (r : Reader H) : Reader H :=
  { r with woken := r.woken || r.registered, registered := false }

/-- An operation of the worker. -/
def work (r : Reader H) : WorkerOp → Reader H × List ReadEvent
  | .pushData data =>
      if r.stream.dataQueue.length < dataCapacity then
        ({ r with stream := r.stream.pushData data }.notify, [.pushed data])
      else (r, [])
  | .closeRemote => ({ r with stream := r.stream.closeRemote }, [.closed])
  | op => ({ r with stream := op.onStream r.stream }, [])

/-- A call is at `pc`. -/
def setCall (r : Reader H) (j : Nat) (pc : CallPc H) : Reader H :=
  { r with calls := Function.update r.calls j (some pc) }

/-- What is seen of an operation of a call. -/
def callEvent : CallEffect H → List ReadEvent
  | .enqueued _ => []
  | .delivered data => [.delivered data]

/-- The `recv` in the `select!` of `read_data` registers a waker of its own. -/
def takesWaker : CallPc H → Bool
  | .readSelect => true
  | _ => false

/-- A call goes on. -/
def stepCall (r : Reader H) (j : Nat) (alt : Bool) (c : Channel H) :
    Option (Reader H × List ReadEvent) :=
  match r.calls j with
  | none => none
  | some pc =>
      match callStep alt pc r.stream c with
      | none => none
      | some out => some ({ r with
          stream := out.stream
          registered := r.registered && !takesWaker out.pc }.setCall j out.pc,
          out.effects.flatMap callEvent)

/-- The future of a call is dropped. -/
def cancelCall (r : Reader H) (j : Nat) : Option (Reader H × List ReadEvent) :=
  match r.calls j with
  | none => none
  | some pc =>
      match callCancel pc r.stream with
      | none => none
      | some (pc', st) => some ({ r with stream := st }.setCall j pc', [])

/-- `poll_read` returns `Ready(Ok(()))`. -/
def ready (r : Reader H) (n : Nat) (data : Bytes) : Reader H × List ReadEvent :=
  ({ r with poll := .idle }, [.filled n data])

/-- `poll_read` returns `Pending`. -/
def returnPending (r : Reader H) : Reader H × List ReadEvent :=
  ({ r with poll := .idle, pending := true }, [.pending])

/-- The lock of `data_rx` is released with its guard. -/
def unlock (r : Reader H) : Reader H := { r with stream := { r.stream with dataLocked := false } }

/-- `poll_read` is called. -/
def startPoll (r : Reader H) (n : Nat) : Option (Reader H × List ReadEvent) :=
  match r.poll with
  | .idle => some ({ r with poll := .unread n, woken := false, pending := false }, [])
  | _ => none

/-- `poll_read` goes on.  A wake-up follows a spurious failure, and a `try_lock` that
fails. -/
def stepPoll (r : Reader H) (spurious : Bool) : Option (Reader H × List ReadEvent) :=
  match r.poll with
  | .idle => none
  | .unread n =>
      match r.unread with
      | some bytes =>
          let k := min bytes.length n
          some ({ r with unread := if k = bytes.length then none else some (bytes.drop k) }.ready n
            (bytes.take k))
      | none => some ({ r with poll := .lock n }, [])
  | .lock n =>
      if r.stream.dataLocked then some { r with woken := true }.returnPending
      else some ({ r with
        poll := .recv n
        stream := { r.stream with dataLocked := true } }, [])
  | .recv n =>
      if spurious then some ({ r with poll := .borrow n, woken := true }, [])
      else
        match r.stream.dataQueue with
        | data :: rest =>
            let k := min data.length n
            some ({ r with
              stream := { r.stream with dataQueue := rest, dataLocked := false }
              unread := if k < data.length then some (data.drop k) else r.unread }.ready n
                (data.take k))
        | [] => some ({ r with poll := .borrow n, registered := true }, [])
  | .borrow n =>
      if r.stream.remoteClosed then some (r.unlock.ready n []) else some r.unlock.returnPending

/-- `try_lock` fails although the lock is free. -/
def refusePoll (r : Reader H) (j : Nat) : Option (Reader H × List ReadEvent) :=
  match r.poll, r.calls j with
  | .lock _, some .readLock => some { r with woken := true }.returnPending
  | _, _ => none

/-- One step of the stream. -/
def step (r : Reader H) : ReadAction H → Option (Reader H × List ReadEvent)
  | .work op => some (r.work op)
  | .invoke j q => if r.calls j = none then some (r.setCall j q.entry, []) else none
  | .call j alt c => r.stepCall j alt c
  | .cancel j => r.cancelCall j
  | .poll n => r.startPoll n
  | .pollStep spurious => r.stepPoll spurious
  | .pollRefused j => r.refusePoll j

/-- A stream that has just been made. -/
def start (st : Stream H) : Reader H where
  stream := Stream.new st.streamId st.headers st.priority
  calls := fun _ => none
  unread := none
  poll := .idle
  registered := false
  woken := false
  pending := false

end Reader

/-- The stream with the id, the headers and the priority of `st`. -/
def reader (st : Stream H) : Machine (Reader H) (ReadAction H) ReadEvent where
  start := Reader.start st
  step := Reader.step

/-! ## Steps -/

/-- What a step of `poll_read` does. -/
inductive PollMove (r : Reader H) (a : ReadAction H) (r' : Reader H) (es : List ReadEvent) :
    Prop where
  | begin (n : Nat) (action : a = .poll n) (pc : r.poll = .idle)
      (state : r' = { r with poll := .unread n, woken := false, pending := false })
      (events : es = [])
  /-- bytes of the remainder -/
  | remainder (n : Nat) (bytes : Bytes) (pc : r.poll = .unread n) (get : r.unread = some bytes)
      (state : r' = { r with
        poll := .idle
        unread := if min bytes.length n = bytes.length then none
          else some (bytes.drop (min bytes.length n)) })
      (events : es = [.filled n (bytes.take (min bytes.length n))])
  | nothingLeft (n : Nat) (pc : r.poll = .unread n) (get : r.unread = none)
      (state : r' = { r with poll := .lock n }) (events : es = [])
  | refused (n : Nat) (pc : r.poll = .lock n)
      (state : r' = { r with poll := .idle, woken := true, pending := true })
      (events : es = [.pending])
  | locks (n : Nat) (pc : r.poll = .lock n)
      (state : r' = { r with poll := .recv n, stream := { r.stream with dataLocked := true } })
      (events : es = [])
  | fails (n : Nat) (action : a = .pollStep true) (pc : r.poll = .recv n)
      (state : r' = { r with poll := .borrow n, woken := true }) (events : es = [])
  | takes (n : Nat) (data : Bytes) (rest : List Bytes) (action : a = .pollStep false)
      (pc : r.poll = .recv n) (queue : r.stream.dataQueue = data :: rest)
      (state : r' = { r with
        poll := .idle
        stream := { r.stream with dataQueue := rest, dataLocked := false }
        unread := if min data.length n < data.length then some (data.drop (min data.length n))
          else r.unread })
      (events : es = [.filled n (data.take (min data.length n))])
  | empty (n : Nat) (pc : r.poll = .recv n) (queue : r.stream.dataQueue = [])
      (state : r' = { r with poll := .borrow n, registered := true }) (events : es = [])
  | ends (n : Nat) (pc : r.poll = .borrow n) (closed : r.stream.remoteClosed = true)
      (state : r' = { r.unlock with poll := .idle }) (events : es = [.filled n []])
  | waits (n : Nat) (pc : r.poll = .borrow n) (here : r.stream.remoteClosed = false)
      (state : r' = { r.unlock with poll := .idle, pending := true }) (events : es = [.pending])

/-- What a step does. -/
inductive ReaderMove (r : Reader H) (a : ReadAction H) (r' : Reader H) (es : List ReadEvent) :
    Prop where
  | work (op : WorkerOp) (action : a = .work op) (state : r' = (r.work op).1)
      (events : es = (r.work op).2)
  | invoke (j : Nat) (q : Request H) (action : a = .invoke j q)
      (state : r' = r.setCall j q.entry) (events : es = [])
  | call (j : Nat) (alt : Bool) (c : Channel H) (pc : CallPc H) (out : CallOutcome H)
      (action : a = .call j alt c) (get : r.calls j = some pc)
      (outcome : callStep alt pc r.stream c = some out)
      (state : r' = { r with
        stream := out.stream
        registered := r.registered && !Reader.takesWaker out.pc }.setCall j out.pc)
      (events : es = out.effects.flatMap Reader.callEvent)
  | cancel (j : Nat) (pc pc' : CallPc H) (st : Stream H) (action : a = .cancel j)
      (get : r.calls j = some pc) (outcome : callCancel pc r.stream = some (pc', st))
      (state : r' = { r with stream := st }.setCall j pc') (events : es = [])
  | poll (move : PollMove r a r' es) (action : a.isPoll = true)

theorem stepPoll_move {r r' : Reader H} {spurious : Bool} {es : List ReadEvent}
    (h : r.stepPoll spurious = some (r', es)) : PollMove r (.pollStep spurious) r' es := by
  unfold Reader.stepPoll at h
  split at h
  · cases h
  · rename_i n hpc
    split at h
    · rename_i bytes hget
      cases h
      exact .remainder n bytes hpc hget rfl rfl
    · rename_i hget
      cases h
      exact .nothingLeft n hpc hget rfl rfl
  · rename_i n hpc
    split at h
    · cases h
      exact .refused n hpc rfl rfl
    · cases h
      exact .locks n hpc rfl rfl
  · rename_i n hpc
    split at h
    · rename_i hspurious
      cases h
      subst hspurious
      exact .fails n rfl hpc rfl rfl
    · rename_i hspurious
      obtain rfl := eq_false_of_ne_true hspurious
      split at h
      · rename_i data rest hqueue
        cases h
        exact .takes n data rest rfl hpc hqueue rfl rfl
      · rename_i hqueue
        cases h
        exact .empty n hpc hqueue rfl rfl
  · rename_i n hpc
    split at h
    · rename_i hclosed
      cases h
      exact .ends n hpc hclosed rfl rfl
    · rename_i hopen
      cases h
      exact .waits n hpc (eq_false_of_ne_true hopen) rfl rfl

theorem reader_step {r r' : Reader H} {a : ReadAction H} {es : List ReadEvent}
    (h : r.step a = some (r', es)) : ReaderMove r a r' es := by
  cases a with
  | work op =>
      have hout : r.work op = (r', es) := Option.some.inj h
      exact .work op rfl (by rw [hout]) (by rw [hout])
  | invoke j q =>
      simp only [Reader.step] at h
      split at h
      · cases h
        exact .invoke j q rfl rfl rfl
      · cases h
  | call j alt c =>
      simp only [Reader.step, Reader.stepCall] at h
      split at h
      · cases h
      · rename_i pc hget
        split at h
        · cases h
        · rename_i out hout
          cases h
          exact .call j alt c pc out rfl hget hout rfl rfl
  | cancel j =>
      simp only [Reader.step, Reader.cancelCall] at h
      split at h
      · cases h
      · rename_i pc hget
        split at h
        · cases h
        · rename_i pc' st hout
          cases h
          exact .cancel j pc pc' st rfl hget hout rfl rfl
  | poll n =>
      simp only [Reader.step, Reader.startPoll] at h
      split at h
      · rename_i hpc
        cases h
        exact .poll (.begin n rfl hpc rfl rfl) rfl
      · cases h
  | pollStep spurious => exact .poll (stepPoll_move h) rfl
  | pollRefused j =>
      simp only [Reader.step, Reader.refusePoll] at h
      split at h
      · rename_i n hpc hwaits
        cases h
        exact .poll (.refused n hpc rfl rfl) rfl
      · cases h

/-- An operation of the worker does to the stream what it does on the connection, and
nothing to the calls and `poll_read`. -/
theorem Reader.work_eq (r : Reader H) (op : WorkerOp) :
    (r.work op).1.stream = op.onStream r.stream ∧ (r.work op).1.calls = r.calls ∧
      (r.work op).1.unread = r.unread ∧ (r.work op).1.poll = r.poll ∧
      (r.work op).1.pending = r.pending := by
  cases op with
  | pushData data =>
      simp only [Reader.work, WorkerOp.onStream, Stream.pushData]
      split
      · exact ⟨rfl, rfl, rfl, rfl, rfl⟩
      · exact ⟨rfl, rfl, rfl, rfl, rfl⟩
  | _ => exact ⟨rfl, rfl, rfl, rfl, rfl⟩

/-- `poll_read` does nothing to the calls. -/
theorem PollMove.calls {r r' : Reader H} {a : ReadAction H} {es : List ReadEvent}
    (h : PollMove r a r' es) : r'.calls = r.calls := by
  cases h with
  | begin _ _ _ state _ | remainder _ _ _ _ state _ | nothingLeft _ _ _ state _
  | refused _ _ state _ | locks _ _ state _ | fails _ _ _ state _ | takes _ _ _ _ _ _ state _
  | empty _ _ _ state _ => rw [state]
  | ends _ _ _ state _ | waits _ _ _ state _ =>
      rw [state]
      rfl

/-- A step of `poll_read` is its call, or one has been called. -/
theorem PollMove.begins {r r' : Reader H} {a : ReadAction H} {es : List ReadEvent}
    (h : PollMove r a r' es) : (∃ n, a = .poll n) ∨ r.poll ≠ .idle := by
  cases h with
  | begin n action pc state events => exact .inl ⟨n, action⟩
  | remainder n _ pc _ _ _ | nothingLeft n pc _ _ _ | refused n pc _ _ | locks n pc _ _
  | fails n _ pc _ _ | takes n _ _ _ pc _ _ _ | empty n pc _ _ _ | ends n pc _ _ _
  | waits n pc _ _ _ =>
      right
      rw [pc]
      exact PollPc.noConfusion

theorem poll_step {r r' : Reader H} {a : ReadAction H} {es : List ReadEvent}
    (hs : r.step a = some (r', es)) (hpoll : a.isPoll = true) : PollMove r a r' es := by
  cases reader_step hs with
  | poll move => exact move
  | work op action _ _ | invoke j q action _ _ | call j alt c pc out action _ _ _ _
  | cancel j pc pc' st action _ _ _ _ =>
      rw [action] at hpoll
      cases hpoll

/-- Only `poll_read` changes the remainder. -/
theorem unread_step {r r' : Reader H} {a : ReadAction H} {es : List ReadEvent}
    (hs : r.step a = some (r', es)) (hpoll : a.isPoll = false) : r'.unread = r.unread := by
  cases reader_step hs with
  | poll move action => cases hpoll.symm.trans action
  | work op action state _ =>
      rw [state]
      exact (r.work_eq op).2.2.1
  | invoke _ _ _ state _ | call _ _ _ _ _ _ _ _ state _ | cancel _ _ _ _ _ _ _ state _ =>
      rw [state]
      rfl

/-- Only `poll_read` fills a buffer. -/
theorem poll_of_filled {r r' : Reader H} {a : ReadAction H} {es : List ReadEvent}
    (hs : r.step a = some (r', es)) {n : Nat} {data : Bytes} (hmem : .filled n data ∈ es) :
    a.isPoll = true := by
  cases reader_step hs with
  | poll move action => exact action
  | work op action state events =>
      rw [events] at hmem
      cases op with
      | pushData pushed =>
          simp only [Reader.work] at hmem
          split at hmem
          · cases List.mem_singleton.mp hmem
          · cases hmem
      | closeRemote => cases List.mem_singleton.mp hmem
      | _ => cases hmem
  | invoke j q action state events | cancel j _ _ _ action get outcome state events =>
      rw [events] at hmem
      cases hmem
  | call j alt c pc out action get outcome state events =>
      rw [events] at hmem
      obtain ⟨eff, -, hmem⟩ := List.mem_flatMap.mp hmem
      cases eff with
      | enqueued f => cases hmem
      | delivered read => cases List.mem_singleton.mp hmem

/-! ## Bytes -/

/-- The payload that the data channel has taken. -/
def ReadEvent.pushedPayload : ReadEvent → List Bytes
  | .pushed data => [data]
  | _ => []

/-- The payload that `read_data` has returned. -/
def ReadEvent.deliveredPayload : ReadEvent → List Bytes
  | .delivered data => [data]
  | _ => []

/-- The bytes that the data channel has taken. -/
def ReadEvent.enqueued : ReadEvent → Bytes
  | .pushed data => data
  | _ => []

/-- The bytes that `poll_read` or `read_data` has returned. -/
def ReadEvent.returned : ReadEvent → Bytes
  | .filled _ data | .delivered data => data
  | _ => []

/-! ## The stream on the connection -/

/-- The stream and its calls are as on the connection, where there is no `poll_read`. -/
structure ReadsAs (o : Nat) (s : State H) (r : Reader H) : Prop where
  stream : s.objs[o]? = some r.stream
  calls : ∀ j, r.calls j = s.pcOf o j
  poll : r.poll = .idle
  unread : r.unread = none

namespace Reader

theorem callEvent_pushed (effects : List (CallEffect H)) :
    (effects.flatMap callEvent).flatMap ReadEvent.pushedPayload = [] := by
  refine List.flatMap_eq_nil_iff.mpr fun e he => ?_
  obtain ⟨eff, -, he⟩ := List.mem_flatMap.mp he
  cases eff with
  | enqueued f => cases he
  | delivered data =>
      rw [List.mem_singleton.mp he]
      rfl

theorem callEvent_delivered (effects : List (CallEffect H)) :
    (effects.flatMap callEvent).flatMap ReadEvent.deliveredPayload =
      effects.flatMap CallEffect.payload := by
  rw [List.flatMap_assoc]
  congr 1
  funext eff
  cases eff with
  | _ => rfl

end Reader

theorem keptFor_of_silent {o : Nat} {es : List (Event H)} (h : ∀ e ∈ es, e.concerns o = false) :
    es.flatMap (Event.keptFor o) = [] ∧ es.flatMap (Event.deliveredFrom o) = [] := by
  constructor
  · refine List.flatMap_eq_nil_iff.mpr fun e he => ?_
    cases e with
    | pushed o' data kept =>
        have ho : o' ≠ o := of_decide_eq_false (h _ he)
        cases kept with
        | true => exact if_neg ho
        | false => rfl
    | _ => rfl
  · refine List.flatMap_eq_nil_iff.mpr fun e he => ?_
    cases e with
    | delivered o' data => exact if_neg (of_decide_eq_false (h _ he))
    | _ => rfl

theorem callEvent_kept (j o : Nat) (effects : List (CallEffect H)) :
    (effects.map (callEvent j o)).flatMap (Event.keptFor o) = [] ∧
      (effects.map (callEvent j o)).flatMap (Event.deliveredFrom o) =
        effects.flatMap CallEffect.payload := by
  rw [List.flatMap_map, List.flatMap_map]
  constructor
  · refine List.flatMap_eq_nil_iff.mpr fun eff _ => ?_
    cases eff with
    | _ => rfl
  · congr 1
    funext eff
    cases eff with
    | enqueued f => rfl
    | delivered data => exact if_pos rfl

theorem work_payloads (r : Reader H) (o : Nat) (op : WorkerOp) (found : Option Nat) :
    (r.work op).2.flatMap ReadEvent.pushedPayload =
        (Event.worked o op :: op.shown o r.stream found : List (Event H)).flatMap
          (Event.keptFor o) ∧
      (r.work op).2.flatMap ReadEvent.deliveredPayload =
        (Event.worked o op :: op.shown o r.stream found : List (Event H)).flatMap
          (Event.deliveredFrom o) := by
  cases op with
  | pushData data =>
      simp only [Reader.work, WorkerOp.shown]
      split
      · rename_i hroom
        simp [ReadEvent.pushedPayload, ReadEvent.deliveredPayload, Event.keptFor,
          Event.deliveredFrom, hroom]
      · rename_i hfull
        simp [Event.keptFor, Event.deliveredFrom, hfull]
  | _ => exact ⟨rfl, rfl⟩

/-- What is pushed to a stream of the connection, and what `read_data` returns from it,
is so for its reader. -/
structure SamePayloads (o : Nat) (evs : List (Event H)) (revs : List ReadEvent) : Prop where
  pushed : revs.flatMap ReadEvent.pushedPayload = evs.flatMap (Event.keptFor o)
  delivered : revs.flatMap ReadEvent.deliveredPayload = evs.flatMap (Event.deliveredFrom o)

theorem SamePayloads.append {o : Nat} {evs es : List (Event H)} {revs res : List ReadEvent}
    (h : SamePayloads o evs revs) (hes : SamePayloads o es res) :
    SamePayloads o (evs ++ es) (revs ++ res) := by
  constructor
  · rw [List.flatMap_append, List.flatMap_append, h.pushed, hes.pushed]
  · rw [List.flatMap_append, List.flatMap_append, h.delivered, hes.delivered]

end SpdyStream.Session
