/-
  Session/Connection.lean --- the connection (`connection.rs`): its state, its
  tasks, and what each of them does in one step.

  The tasks are the read task, the five workers, the write task, the handlers'
  calls on their streams, and the calls of `close` and `ping`.  One step of a
  task is one atomic load, store or swap, one access to a map under its lock, or
  one channel operation; a run is any interleaving of such steps.

  An `Arc<Stream>` is a position in `objs`, which only grows.  The lock of
  `streams` is held across steps in two places, both in the read task (the send
  of the `StreamInUse` branch and the loop of the teardown); everywhere else
  lock, access and unlock are one step.
-/
import SpdyStream.Foundation.Machine
import SpdyStream.Session.Stream

set_option autoImplicit false

namespace SpdyStream.Session

open SpdyStream.Foundation
open SpdyStream.Framing

variable {H : Type}

/-- `N_WORKERS`. -/
def nWorkers : Nat := 5
/-- The capacity of a worker's channel. -/
def workerCapacity : Nat := 128
/-- `SETTINGS_MAX_CONCURRENT_STREAMS`. -/
def settingsMaxConcurrentStreams : UInt32 := 4
/-- `SETTINGS_INITIAL_WINDOW_SIZE`. -/
def settingsInitialWindowSize : UInt32 := 7
/-- `DEFAULT_INITIAL_WINDOW_SIZE`. -/
def defaultInitialWindowSize : UInt32 := 65536

/-- `(sid as usize) % N_WORKERS`. -/
def workerIdx (sid : UInt32) : Fin nWorkers := ⟨sid.toNat % nWorkers, Nat.mod_lt _ (by decide)⟩

/-! ## Tasks -/

/-- `WorkerMsg`. -/
structure WorkerMsg (H : Type) where
  frame : Frame H
  stream : Nat
  deriving DecidableEq

/-- One operation of a worker on the stream of a message. -/
inductive WorkerOp where
  /-- spawn the handler -/
  | spawnHandler
  | pushData (data : Bytes)
  | closeRemote
  /-- lock `streams` and remove the stream's id -/
  | removeStream
  /-- `replied.store(true)` -/
  | storeReplied
  /-- `reply_notify.notify_waiters()` -/
  | notifyWaiters
  deriving DecidableEq

/-- `close_remote` if a flag is set. -/
def closeIf (fin : Prop) [Decidable fin] : List WorkerOp := if fin then [.closeRemote] else []

/-- What a worker does with a frame. -/
def workerOps : Frame H → List WorkerOp
  | .synStream _ => [.spawnHandler]
  | .data df => .pushData df.data :: closeIf (df.flags &&& dataFlagFin ≠ 0)
  | .rstStream _ => [.closeRemote, .removeStream]
  | .synReply sr => .storeReplied :: .notifyWaiters :: closeIf (sr.flags &&& flagFin ≠ 0)
  | .headers hf => closeIf (hf.flags &&& flagFin ≠ 0)
  | .settings _ | .ping _ | .goAway _ | .windowUpdate _ => []

/-- A worker: its channel, and what is left to do of the message in hand. -/
structure Worker (H : Type) where
  queue : List (WorkerMsg H)
  /-- the stream of the message in hand -/
  stream : Nat
  todo : List WorkerOp

/-- Where the read task is. -/
inductive ReadTask (H : Type) where
  /-- in `read_frame` -/
  | reading
  /-- a SYN_STREAM: the load of `last_client_stream_id` -/
  | loadLast (f : SynStreamFrame H)
  /-- a SYN_STREAM: the load of `gone_away` -/
  | loadGoneAway (f : SynStreamFrame H)
  /-- a SYN_STREAM: `contains_key` and `insert` under the lock of `streams` -/
  | register (f : SynStreamFrame H)
  /-- a SYN_STREAM whose id is taken: the send of `StreamInUse` under the lock -/
  | inUse (f : SynStreamFrame H)
  /-- an accepted SYN_STREAM: the store of `last_client_stream_id` -/
  | storeLast (f : SynStreamFrame H) (o : Nat)
  /-- a frame of a stream: `get` under the lock of `streams` -/
  | lookup (f : Frame H)
  /-- a frame for a stream: the send to its worker -/
  | forward (o : Nat) (f : Frame H)
  /-- the send of an RST_STREAM or an echoed PING -/
  | respond (f : Frame H)
  /-- an even PING: `remove` under the lock of `ping_map`, and the wake-up -/
  | resolvePing (id : UInt32)
  /-- a GOAWAY: `gone_away.store(true)` -/
  | storeGoneAway
  /-- a GOAWAY: `close_tx.send(true)` -/
  | goAwayClose
  /-- teardown: the lock of `streams` -/
  | lockStreams
  /-- teardown: `close_remote` on the streams that are left, under the lock -/
  | sweep (rest : List Nat)
  /-- teardown: `close_tx.send(true)` -/
  | finalClose
  | finished
  /-- the task has panicked -/
  | dead

/-- Where a call of `close` is. -/
inductive CloseCall where
  /-- `gone_away.swap(true)` -/
  | swap
  /-- the load of `last_client_stream_id` -/
  | loadLast
  /-- the send of GOAWAY -/
  | sendGoAway (lastGood : UInt32)
  /-- `close_tx.send(true)` -/
  | broadcast
  /-- the loop that waits for `streams` to be empty -/
  | drain
  | returned
  deriving DecidableEq

/-- The `oneshot` channel of a `ping`. -/
inductive Oneshot where
  | waiting
  | fired
  /-- the sender is gone without a word -/
  | dropped
  deriving DecidableEq

/-- Where a call of `ping` is. -/
inductive PingCall where
  /-- `next_ping_id.fetch_add(2)` -/
  | fetchId
  /-- `insert` under the lock of `ping_map` -/
  | insert (id : UInt32)
  /-- the send of the PING -/
  | send (id : UInt32) (rx : Oneshot)
  /-- the wait for the echo -/
  | wait (id : UInt32) (rx : Oneshot)
  | returned (r : CallResult)
  deriving DecidableEq

/-- What the sender of the `oneshot` does shows in its receiver. -/
def PingCall.signal (rx : Oneshot) : PingCall → PingCall
  | .send id _ => .send id rx
  | .wait id _ => .wait id rx
  | p => p

/-- A call on a stream. -/
structure Call (H : Type) where
  stream : Nat
  pc : CallPc H

/-! ## State -/

/-- `Connection`, the tasks it spawned, and the calls in progress. -/
structure State (H : Type) where
  streams : AList fun _ : UInt32 => Nat
  lastClientStreamId : UInt32
  goneAway : Bool
  /-- the value of `close_tx` -/
  closed : Bool
  /-- waiters by ping id: the number of the call -/
  pingMap : AList fun _ : UInt32 => Nat
  nextPingId : UInt32
  initialWindowSize : UInt32
  writeChannel : Channel H
  /-- every `Stream` made so far -/
  objs : List (Stream H)
  readTask : ReadTask H
  workers : Fin nWorkers → Worker H
  /-- the streams whose handler has been spawned, in order -/
  handed : List Nat
  calls : List (Call H)
  closes : List CloseCall
  pings : List PingCall

/-- The settings that `serve` sends first. -/
def initialSettings : SettingsFrame where
  settings := [{ id := settingsMaxConcurrentStreams, flags := 0, value := 100 }]
  flags := 0

/-- The state in which `serve` returns. -/
def State.initial (H : Type) : State H where
  streams := ∅
  lastClientStreamId := 0
  goneAway := false
  closed := false
  pingMap := ∅
  nextPingId := 2
  initialWindowSize := defaultInitialWindowSize
  writeChannel := { queue := [.settings initialSettings], isOpen := true }
  objs := []
  readTask := .reading
  workers := fun _ => { queue := [], stream := 0, todo := [] }
  handed := []
  calls := []
  closes := []
  pings := []

/-- Who put a frame into the write channel. -/
inductive Source where
  | readTask
  | call (k : Nat)
  | close (k : Nat)
  | ping (k : Nat)
  deriving DecidableEq

/-- What is seen of a step. -/
inductive Event (H : Type) where
  /-- the read task has read a frame -/
  | read (f : Frame H)
  /-- a SYN_STREAM is accepted: its stream is in the map -/
  | accepted (o : Nat) (f : SynStreamFrame H)
  /-- a SYN_STREAM is rejected, with the status it will be answered with -/
  | rejected (f : SynStreamFrame H) (status : RstStatus)
  /-- the id of a frame was looked up in the map, and what was found -/
  | lookedUp (f : Frame H) (found : Option Nat)
  /-- a frame for a stream was sent to its worker -/
  | forwarded (o : Nat) (f : Frame H)
  /-- a worker takes a frame from its channel and begins to apply it -/
  | applied (o : Nat) (f : Frame H)
  /-- a worker has done an operation for the frame in hand -/
  | worked (o : Nat) (op : WorkerOp)
  /-- what `push_data` did with a payload -/
  | pushed (o : Nat) (data : Bytes) (kept : Bool)
  /-- what the removal after an RST_STREAM found under the id -/
  | removed (o : Nat) (found : Option Nat)
  /-- a handler makes its next call on a stream -/
  | invoked (o : Nat) (r : Request H)
  /-- a frame is accepted by the write channel -/
  | enqueued (src : Source) (f : Frame H)
  /-- a call of `read_data` returns a payload -/
  | delivered (o : Nat) (data : Bytes)
  deriving DecidableEq

/-- What happens next. -/
inductive Action (H : Type) where
  /-- `read_frame` returns a frame -/
  | read (f : Frame H)
  /-- `read_frame` returns an error -/
  | readFail
  /-- `read_frame` panics -/
  | readPanic
  /-- the read task goes on; `pick` chooses the next stream of the teardown's loop -/
  | readTask (pick : Nat)
  /-- a worker receives a message -/
  | workerRecv (i : Fin nWorkers)
  /-- a worker goes on with the message in hand -/
  | workerRun (i : Fin nWorkers)
  /-- the write task takes a frame and writes it -/
  | write
  /-- the write task fails and drops the channel -/
  | writeFail
  | invoke (o : Nat) (r : Request H)
  | call (k : Nat) (alt : Bool)
  | cancel (k : Nat)
  | close
  | closeStep (k : Nat)
  /-- the drain of a `close` has taken five seconds -/
  | closeTimeout (k : Nat)
  | ping
  | pingStep (k : Nat)
  /-- a `ping` has waited five seconds -/
  | pingTimeout (k : Nat)

/-! ## The read task -/

/-- The RST_STREAM that answers a SYN_STREAM. -/
def rstFor (f : SynStreamFrame H) (status : RstStatus) : Frame H :=
  .rstStream { streamId := f.streamId, status }

/-- Where the read task goes with a frame it has read. -/
def dispatch : Frame H → ReadTask H
  | .synStream f =>
      if f.streamId = 0 ∨ f.streamId % 2 = 0 then .respond (rstFor f .protocolError)
      else .loadLast f
  | .data f => .lookup (.data f)
  | .synReply f => .lookup (.synReply f)
  | .rstStream f => .lookup (.rstStream f)
  | .headers f => .lookup (.headers f)
  | .ping f => if f.id % 2 = 1 then .respond (.ping f) else .resolvePing f.id
  | .goAway _ => .storeGoneAway
  | .settings _ | .windowUpdate _ => .reading

/-- The window size after a SETTINGS frame. -/
def windowAfter (size : UInt32) : Frame H → UInt32
  | .settings sf => sf.settings.foldl
      (fun w s => if s.id = settingsInitialWindowSize then s.value else w) size
  | _ => size

/-- What is rejected as soon as it is read. -/
def rejectedAtOnce : Frame H → List (Event H)
  | .synStream f =>
      if f.streamId = 0 ∨ f.streamId % 2 = 0 then [.rejected f .protocolError] else []
  | _ => []

/-- `read_frame` has returned a frame. -/
def State.readFrame (s : State H) (f : Frame H) : Option (State H × List (Event H)) :=
  match s.readTask with
  | .reading => some ({ s with
      readTask := dispatch f
      initialWindowSize := windowAfter s.initialWindowSize f }, .read f :: rejectedAtOnce f)
  | _ => none

/-- The read task is where `read_frame` has ended without a frame. -/
def State.readEnds (s : State H) (next : ReadTask H) : Option (State H × List (Event H)) :=
  match s.readTask with
  | .reading => some ({ s with readTask := next }, [])
  | _ => none

/-- A send on the write channel whose result is ignored. -/
def State.sendIgnoring (s : State H) (src : Source) (f : Frame H) :
    Option (State H × List (Event H)) :=
  match s.writeChannel.send f with
  | .full => none
  | .closed => some (s, [])
  | .sent c => some ({ s with writeChannel := c }, [.enqueued src f])

/-- The read task goes to `next` after what it did. -/
def thenRead (next : ReadTask H) (r : State H × List (Event H)) : State H × List (Event H) :=
  ({ r.1 with readTask := next }, r.2)

/-- The send to a worker. -/
def State.forward (s : State H) (o : Nat) (f : Frame H) : Option (State H × List (Event H)) :=
  let i := workerIdx f.target
  let w := s.workers i
  if w.queue.length < workerCapacity then
    let w' := { w with queue := w.queue ++ [{ frame := f, stream := o }] }
    some ({ s with readTask := .reading, workers := Function.update s.workers i w' },
      [.forwarded o f])
  else none

/-- The registration of a SYN_STREAM: `contains_key`, and `insert` if the id is
free. -/
def State.register (s : State H) (f : SynStreamFrame H) : State H × List (Event H) :=
  if f.streamId ∈ s.streams then
    ({ s with readTask := .inUse f }, [.rejected f .streamInUse])
  else
    ({ s with
      objs := s.objs ++ [Stream.new f.streamId f.headers f.priority]
      streams := s.streams.insert f.streamId s.objs.length
      readTask := .storeLast f s.objs.length }, [.accepted s.objs.length f])

/-- Where the read task goes with a frame whose stream is not there. -/
def missing : Frame H → ReadTask H
  | .data df => .respond (.rstStream { streamId := df.streamId, status := .invalidStream })
  | _ => .reading

/-- The lookup of a frame of a stream. -/
def State.lookup (s : State H) (f : Frame H) : State H × List (Event H) :=
  match s.streams.lookup f.target with
  | some o => ({ s with readTask := .forward o f }, [.lookedUp f (some o)])
  | none => ({ s with readTask := missing f }, [.lookedUp f none])

/-- An entry of `ping_map` gives up its sender. -/
def State.signalPing (s : State H) (id : UInt32) (rx : Oneshot) : State H :=
  match s.pingMap.lookup id with
  | none => s
  | some k => { s with
      pingMap := s.pingMap.erase id
      pings := s.pings.modify k (PingCall.signal rx) }

/-- One step of the read task. -/
def State.readStep (s : State H) (pick : Nat) : Option (State H × List (Event H)) :=
  match s.readTask with
  | .reading => none
  | .loadLast f =>
      if f.streamId ≤ s.lastClientStreamId then
        some ({ s with readTask := .respond (rstFor f .protocolError) },
          [.rejected f .protocolError])
      else some ({ s with readTask := .loadGoneAway f }, [])
  | .loadGoneAway f =>
      if s.goneAway then
        some ({ s with readTask := .respond (rstFor f .refusedStream) },
          [.rejected f .refusedStream])
      else some ({ s with readTask := .register f }, [])
  | .register f => some (s.register f)
  | .inUse f => (s.sendIgnoring .readTask (rstFor f .streamInUse)).map (thenRead .reading)
  | .storeLast f o =>
      some ({ s with lastClientStreamId := f.streamId, readTask := .forward o (.synStream f) }, [])
  | .lookup f => some (s.lookup f)
  | .forward o f => s.forward o f
  | .respond f => (s.sendIgnoring .readTask f).map (thenRead .reading)
  | .resolvePing id => some ({ s.signalPing id .fired with readTask := .reading }, [])
  | .storeGoneAway => some ({ s with goneAway := true, readTask := .goAwayClose }, [])
  | .goAwayClose => some ({ s with closed := true, readTask := .lockStreams }, [])
  | .lockStreams =>
      some ({ s with readTask := .sweep (s.streams.entries.map Sigma.snd) }, [])
  | .sweep rest =>
      match rest[pick]? with
      | some o => some ({ s with
          objs := s.objs.modify o Stream.closeRemote
          readTask := .sweep (rest.eraseIdx pick) }, [])
      | none => if rest = [] then some ({ s with readTask := .finalClose }, []) else none
  | .finalClose => some ({ s with closed := true, readTask := .finished }, [])
  | .finished => none
  | .dead => none

/-- The read task holds the lock of `streams` between two steps. -/
def State.streamsLocked (s : State H) : Bool :=
  match s.readTask with
  | .inUse _ | .sweep _ => true
  | _ => false

/-! ## The workers -/

/-- A worker receives the next message. -/
def State.workerRecv (s : State H) (i : Fin nWorkers) : Option (State H × List (Event H)) :=
  match (s.workers i).todo, (s.workers i).queue with
  | [], m :: rest =>
      let w := { queue := rest, stream := m.stream, todo := workerOps m.frame }
      some ({ s with workers := Function.update s.workers i w }, [.applied m.stream m.frame])
  | _, _ => none

/-- The stream of a message changes. -/
def State.modifyStream (s : State H) (o : Nat) (f : Stream H → Stream H) : State H :=
  { s with objs := s.objs.modify o f }

/-- One operation of a worker on a stream. -/
def State.runOp (s : State H) (o : Nat) : WorkerOp → Option (State H × List (Event H))
  | .spawnHandler => some ({ s with handed := s.handed ++ [o] }, [])
  | .pushData data =>
      match s.objs[o]? with
      | none => none
      | some st => some (s.modifyStream o fun st => st.pushData data,
          [.pushed o data (decide (st.dataQueue.length < dataCapacity))])
  | .closeRemote => some (s.modifyStream o Stream.closeRemote, [])
  | .removeStream =>
      match s.objs[o]? with
      | none => none
      | some st =>
          if s.streamsLocked then none
          else some ({ s with streams := s.streams.erase st.streamId },
            [.removed o (s.streams.lookup st.streamId)])
  | .storeReplied => some (s.modifyStream o fun st => { st with replied := true }, [])
  | .notifyWaiters => some (s.modifyStream o fun st => { st with notifies := st.notifies + 1 }, [])

/-- An operation of a worker is seen. -/
def thenWorked (o : Nat) (op : WorkerOp) (r : State H × List (Event H)) :
    State H × List (Event H) :=
  (r.1, .worked o op :: r.2)

/-- A worker goes on with the message in hand. -/
def State.workerRun (s : State H) (i : Fin nWorkers) : Option (State H × List (Event H)) :=
  let w := s.workers i
  match w.todo with
  | [] => none
  | op :: rest =>
      let s := { s with workers := Function.update s.workers i { w with todo := rest } }
      (s.runOp w.stream op).map (thenWorked w.stream op)

/-! ## The write task -/

/-- The write task takes a frame from its channel. -/
def State.write (s : State H) : Option (State H × List (Event H)) :=
  match s.writeChannel.queue with
  | [] => none
  | _ :: rest =>
      if s.writeChannel.isOpen then
        some ({ s with writeChannel := { s.writeChannel with queue := rest } }, [])
      else none

/-! ## Calls -/

/-- A handler calls a method of the stream it was handed. -/
def State.invoke (s : State H) (o : Nat) (r : Request H) : Option (State H × List (Event H)) :=
  if o ∈ s.handed then
    some ({ s with calls := s.calls ++ [{ stream := o, pc := r.entry }] }, [.invoked o r])
  else none

/-- What a call of a handler shows. -/
def callEvent (k o : Nat) : CallEffect H → Event H
  | .enqueued f => .enqueued (.call k) f
  | .delivered d => .delivered o d

/-- A call goes on. -/
def State.stepCall (s : State H) (k : Nat) (alt : Bool) : Option (State H × List (Event H)) :=
  match s.calls[k]? with
  | none => none
  | some c =>
      match s.objs[c.stream]? with
      | none => none
      | some st =>
          match callStep alt c.pc st s.writeChannel with
          | none => none
          | some out => some ({ s with
              calls := s.calls.set k { c with pc := out.pc }
              objs := s.objs.set c.stream out.stream
              writeChannel := out.channel }, out.effects.map (callEvent k c.stream))

/-- The future of a call is dropped. -/
def State.cancelCall (s : State H) (k : Nat) : Option (State H × List (Event H)) :=
  match s.calls[k]? with
  | none => none
  | some c =>
      match s.objs[c.stream]? with
      | none => none
      | some st =>
          match callCancel c.pc st with
          | none => none
          | some (pc, st') => some ({ s with
              calls := s.calls.set k { c with pc := pc }
              objs := s.objs.set c.stream st' }, [])

/-! ## `close` and `ping` -/

/-- A call of `close` is at `next` after what it did. -/
def thenClose (k : Nat) (next : CloseCall) (r : State H × List (Event H)) :
    State H × List (Event H) :=
  ({ r.1 with closes := r.1.closes.set k next }, r.2)

/-- A call of `close` goes on. -/
def State.stepClose (s : State H) (k : Nat) : Option (State H × List (Event H)) :=
  match s.closes[k]? with
  | none => none
  | some .swap =>
      some (thenClose k (if s.goneAway then .returned else .loadLast)
        ({ s with goneAway := true }, []))
  | some .loadLast => some (thenClose k (.sendGoAway s.lastClientStreamId) (s, []))
  | some (.sendGoAway lastGood) =>
      (s.sendIgnoring (.close k)
        (.goAway { lastGoodStreamId := lastGood, status := .ok })).map (thenClose k .broadcast)
  | some .broadcast => some (thenClose k .drain ({ s with closed := true }, []))
  | some .drain =>
      if s.streamsLocked = false ∧ s.streams.keys = [] then some (thenClose k .returned (s, []))
      else none
  | some .returned => none

/-- The drain of a `close` gives up. -/
def State.timeoutClose (s : State H) (k : Nat) : Option (State H × List (Event H)) :=
  match s.closes[k]? with
  | some .drain => some (thenClose k .returned (s, []))
  | _ => none

/-- A call of `ping` is at `next`. -/
def State.setPing (s : State H) (k : Nat) (next : PingCall) : State H :=
  { s with pings := s.pings.set k next }

/-- A call of `ping` goes on.  An insert drops the sender that was there. -/
def State.stepPing (s : State H) (k : Nat) : Option (State H × List (Event H)) :=
  match s.pings[k]? with
  | none => none
  | some .fetchId =>
      some ({ s with nextPingId := s.nextPingId + 2 }.setPing k (.insert s.nextPingId), [])
  | some (.insert id) =>
      let s := s.signalPing id .dropped
      some ({ s with pingMap := s.pingMap.insert id k }.setPing k (.send id .waiting), [])
  | some (.send id rx) =>
      match s.writeChannel.send (.ping { id }) with
      | .full => none
      | .closed => some (s.setPing k (.returned (.failed .connectionClosed)), [])
      | .sent c => some ({ s with writeChannel := c }.setPing k (.wait id rx),
          [.enqueued (.ping k) (.ping { id })])
  | some (.wait _ .waiting) => none
  | some (.wait _ .fired) => some (s.setPing k (.returned .ok), [])
  | some (.wait _ .dropped) => some (s.setPing k (.returned (.failed .connectionClosed)), [])
  | some (.returned _) => none

/-- A `ping` gives up waiting. -/
def State.timeoutPing (s : State H) (k : Nat) : Option (State H × List (Event H)) :=
  match s.pings[k]? with
  | some (.wait _ .waiting) =>
      some (s.setPing k (.returned (.failed (.protocol "ping timeout"))), [])
  | _ => none

/-! ## The machine -/

/-- One step of the connection. -/
def State.step (s : State H) : Action H → Option (State H × List (Event H))
  | .read f => s.readFrame f
  | .readFail => s.readEnds .lockStreams
  | .readPanic => s.readEnds .dead
  | .readTask pick => s.readStep pick
  | .workerRecv i => s.workerRecv i
  | .workerRun i => s.workerRun i
  | .write => s.write
  | .writeFail => some ({ s with writeChannel := { queue := [], isOpen := false } }, [])
  | .invoke o r => s.invoke o r
  | .call k alt => s.stepCall k alt
  | .cancel k => s.cancelCall k
  | .close => some ({ s with closes := s.closes ++ [.swap] }, [])
  | .closeStep k => s.stepClose k
  | .closeTimeout k => s.timeoutClose k
  | .ping => some ({ s with pings := s.pings ++ [.fetchId] }, [])
  | .pingStep k => s.stepPing k
  | .pingTimeout k => s.timeoutPing k

/-- The connection, for header maps of type `H`. -/
def connection (H : Type) : Machine (State H) (Action H) (Event H) where
  start := State.initial H
  step := State.step

/-! ## Stretches of a run -/

/-- The read task reads a SYN_STREAM, registers it and sends it to its worker,
undisturbed. -/
def registers (f : SynStreamFrame H) : List (Action H) :=
  .read (.synStream f) :: List.replicate 5 (.readTask 0)

/-- The read task reads a frame of a stream and sends it to its worker. -/
def routes (f : Frame H) : List (Action H) := .read f :: List.replicate 2 (.readTask 0)

/-- The worker of a frame receives it and applies it. -/
def applies (f : Frame H) : List (Action H) :=
  .workerRecv (workerIdx f.target) ::
    List.replicate (workerOps f).length (.workerRun (workerIdx f.target))

/-- A call goes `n` steps on. -/
def calls (k n : Nat) : List (Action H) := List.replicate n (.call k false)

/-- A SYN_STREAM with given flags, where header maps say nothing. -/
def plainSyn (streamId : UInt32) (flags : UInt8) : SynStreamFrame Unit where
  streamId := streamId
  associatedStreamId := 0
  priority := 0
  headers := ()
  flags := flags

end SpdyStream.Session
