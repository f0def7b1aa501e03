/-
  Session/Stream.lean --- one stream and the calls on it (`stream.rs`).

  A call is a small program over the fields of its `Stream` and the write
  channel.  Its program counter (`CallPc`) stands before one atomic load, store,
  notification, lock or channel operation, and `callStep` does that operation.
  Calls of several tasks on one stream are interleaved by stepping them in any
  order.

  A watch channel that only ever sends `true` is a flag that is set once: its
  value, and the version that `changed()` waits for, say the same.
-/
import SpdyStream.Framing.Frame

set_option autoImplicit false

namespace SpdyStream.Session

open SpdyStream.Foundation
open SpdyStream.Framing

variable {H : Type}

/-! ## Channels -/

/-- The capacity of `write_tx`. -/
def writeCapacity : Nat := 64
/-- The capacity of `data_tx`. -/
def dataCapacity : Nat := 64

/-- The channel of the write task: the frames in it, and whether the receiver is
still there. -/
structure Channel (H : Type) where
  queue : List (Frame H)
  isOpen : Bool
  deriving DecidableEq

/-- How a send finds the channel. -/
inductive SendResult (H : Type) where
  /-- there is no room: `send` waits and `try_send` fails -/
  | full
  /-- the receiver is gone -/
  | closed
  /-- the frame is in the channel -/
  | sent (channel : Channel H)

/-- A send on the write channel. -/
def Channel.send (c : Channel H) (f : Frame H) : SendResult H :=
  if c.isOpen = false then .closed
  else if c.queue.length < writeCapacity then .sent { c with queue := c.queue ++ [f] }
  else .full

/-- A `try_send` succeeds. -/
def Channel.admits (blocked : Bool) (c : Channel H) : Bool :=
  c.isOpen && decide (c.queue.length < writeCapacity) && !blocked

/-! ## The stream -/

/-- `Stream`. -/
structure Stream (H : Type) where
  streamId : UInt32
  headers : H
  priority : UInt8
  /-- the payloads in the data channel -/
  dataQueue : List Bytes
  /-- a task holds the lock of `data_rx` -/
  dataLocked : Bool
  localFinSent : Bool
  replied : Bool
  /-- how often `reply_notify` has notified its waiters -/
  notifies : Nat
  remoteClosed : Bool
  deriving DecidableEq

/-- `Stream::new`. -/
def Stream.new (streamId : UInt32) (headers : H) (priority : UInt8) : Stream H where
  streamId := streamId
  headers := headers
  priority := priority
  dataQueue := []
  dataLocked := false
  localFinSent := false
  replied := false
  notifies := 0
  remoteClosed := false

/-- `push_data`: the payload is dropped when the channel is full. -/
def Stream.pushData (st : Stream H) (data : Bytes) : Stream H :=
  if st.dataQueue.length < dataCapacity then { st with dataQueue := st.dataQueue ++ [data] }
  else st

/-- `close_remote`. -/
def Stream.closeRemote (st : Stream H) : Stream H := { st with remoteClosed := true }

/-! ## Calls -/

/-- What a handler calls on its stream. -/
inductive Request (H : Type) where
  | sendReply (headers : H) (fin : Bool)
  | writeData (data : Bytes) (fin : Bool)
  | pollWrite (buf : Bytes)
  | pollShutdown
  | reset (status : RstStatus)
  | readData
  deriving DecidableEq

/-- What a call returns. -/
inductive CallResult where
  | ok
  /-- `poll_write` has taken this many bytes -/
  | written (n : Nat)
  | failed (e : Error)
  /-- an `std::io::Error` of kind `BrokenPipe` -/
  | brokenPipe (message : String)
  | pending
  | data (d : Option Bytes)
  /-- the future was dropped at an await -/
  | cancelled
  deriving DecidableEq

/-- The next operation of a call. -/
inductive CallPc (H : Type) where
  /-- `send_reply`: the send -/
  | replySend (headers : H) (fin : Bool)
  /-- `send_reply`: `replied.store(true)` -/
  | replyStoreReplied (fin : Bool)
  /-- `send_reply`: `notify_waiters()` -/
  | replyNotify (fin : Bool)
  /-- `send_reply`: `local_fin_sent.store(true)` -/
  | replyStoreFin
  /-- `write_data`: the load of `replied` in the loop condition -/
  | writeLoad (data : Bytes) (fin : Bool)
  /-- `write_data`: `notified()` -/
  | writeNotified (data : Bytes) (fin : Bool)
  /-- `write_data`: the load of `replied` after it -/
  | writeReload (data : Bytes) (fin : Bool) (seen : Nat)
  /-- `write_data`: `notified.await` -/
  | writeWait (data : Bytes) (fin : Bool) (seen : Nat)
  /-- `write_data`: the load of `local_fin_sent` -/
  | writeCheckFin (data : Bytes) (fin : Bool)
  /-- `write_data`: `local_fin_sent.store(true)` -/
  | writeStoreFin (data : Bytes)
  /-- `write_data`: the send -/
  | writeSend (data : Bytes) (fin : Bool)
  /-- `poll_write`: the `try_send` -/
  | pollSend (buf : Bytes)
  /-- `poll_shutdown`: the load of `local_fin_sent` -/
  | shutdownLoad
  /-- `poll_shutdown`: the `try_send` -/
  | shutdownSend
  /-- `poll_shutdown`: `local_fin_sent.store(true)` -/
  | shutdownStore
  /-- `reset`: the send -/
  | resetSend (status : RstStatus)
  /-- `read_data`: the lock of `data_rx` -/
  | readLock
  /-- `read_data`: the first `try_recv` -/
  | readTry
  /-- `read_data`: `remote_closed_rx.borrow()` -/
  | readBorrow
  /-- `read_data`: the `select!` -/
  | readSelect
  /-- `read_data`: the `try_recv` after a remote close -/
  | readDrain
  | returned (r : CallResult)
  deriving DecidableEq

/-- Where a call begins. -/
def Request.entry : Request H → CallPc H
  | .sendReply headers fin => .replySend headers fin
  | .writeData data fin => .writeLoad data fin
  | .pollWrite buf => .pollSend buf
  | .pollShutdown => .shutdownLoad
  | .reset status => .resetSend status
  | .readData => .readLock

/-- What a call does that is seen outside of it. -/
inductive CallEffect (H : Type) where
  /-- a frame is accepted by the write channel -/
  | enqueued (f : Frame H)
  /-- `read_data` returns a payload -/
  | delivered (data : Bytes)
  deriving DecidableEq

/-- What one operation of a call leaves. -/
structure CallOutcome (H : Type) where
  pc : CallPc H
  stream : Stream H
  channel : Channel H
  effects : List (CallEffect H)

/-- The SYN_REPLY of `send_reply`. -/
def replyFrame (st : Stream H) (headers : H) (fin : Bool) : Frame H :=
  .synReply { streamId := st.streamId, headers, flags := if fin then flagFin else 0 }

/-- The DATA frame of `write_data`, `poll_write` and `poll_shutdown`. -/
def dataFrame (st : Stream H) (data : Bytes) (fin : Bool) : Frame H :=
  .data { streamId := st.streamId, flags := if fin then dataFlagFin else 0, data }

/-- `write_tx.send(f).await` and the `?` behind it. -/
def sendThen (c : Channel H) (st : Stream H) (f : Frame H) (next : CallPc H) :
    Option (CallOutcome H) :=
  match c.send f with
  | .full => none
  | .closed => some ⟨.returned (.failed .connectionClosed), st, c, []⟩
  | .sent c' => some ⟨next, st, c', [.enqueued f]⟩

/-- `write_tx.try_send(f)`.  A slot that the channel has promised to a waiting
`send` is not free for `try_send`, so it may find the channel full (`blocked`)
while there seems to be room. -/
def tryThen (blocked : Bool) (c : Channel H) (st : Stream H) (f : Frame H) (next : CallPc H) :
    CallOutcome H :=
  match c.send f with
  | .closed => ⟨.returned (.brokenPipe "connection closed"), st, c, []⟩
  | .full => ⟨.returned .pending, st, c, []⟩
  | .sent c' => if blocked then ⟨.returned .pending, st, c, []⟩ else ⟨next, st, c', [.enqueued f]⟩

/-- `read_data` returns, and its lock of `data_rx` is released. -/
def readReturn (c : Channel H) (st : Stream H) (d : Option Bytes) : CallOutcome H :=
  ⟨.returned (.data d), { st with dataLocked := false }, c, []⟩

/-- `try_recv` and `recv` on a queue that is not empty. -/
def receive (c : Channel H) (st : Stream H) (d : Bytes) (rest : List Bytes) : CallOutcome H :=
  ⟨.returned (.data (some d)), { st with dataQueue := rest, dataLocked := false }, c,
    [.delivered d]⟩

/-- One operation of a call; `none` while it waits.  Where two outcomes are
possible `alt` chooses: the branch of the `select!`, and whether a `try_send`
finds a slot promised to another. -/
def callStep (alt : Bool) (pc : CallPc H) (st : Stream H) (c : Channel H) :
    Option (CallOutcome H) :=
  match pc with
  | .replySend headers fin => sendThen c st (replyFrame st headers fin) (.replyStoreReplied fin)
  | .replyStoreReplied fin => some ⟨.replyNotify fin, { st with replied := true }, c, []⟩
  | .replyNotify fin =>
      some ⟨if fin then .replyStoreFin else .returned .ok,
        { st with notifies := st.notifies + 1 }, c, []⟩
  | .replyStoreFin => some ⟨.returned .ok, { st with localFinSent := true }, c, []⟩
  | .writeLoad data fin =>
      some ⟨if st.replied then .writeCheckFin data fin else .writeNotified data fin, st, c, []⟩
  | .writeNotified data fin => some ⟨.writeReload data fin st.notifies, st, c, []⟩
  | .writeReload data fin seen =>
      some ⟨if st.replied then .writeCheckFin data fin else .writeWait data fin seen, st, c, []⟩
  | .writeWait data fin seen =>
      if st.notifies = seen then none else some ⟨.writeLoad data fin, st, c, []⟩
  | .writeCheckFin data fin =>
      some ⟨if st.localFinSent then .returned (.failed .streamClosed)
        else if fin then .writeStoreFin data else .writeSend data false, st, c, []⟩
  | .writeStoreFin data => some ⟨.writeSend data true, { st with localFinSent := true }, c, []⟩
  | .writeSend data fin => sendThen c st (dataFrame st data fin) (.returned .ok)
  | .pollSend buf =>
      some (tryThen alt c st (dataFrame st buf false) (.returned (.written buf.length)))
  | .shutdownLoad =>
      some ⟨if st.localFinSent then .returned .ok else .shutdownSend, st, c, []⟩
  | .shutdownSend => some (tryThen alt c st (dataFrame st [] true) .shutdownStore)
  | .shutdownStore => some ⟨.returned .ok, { st with localFinSent := true }, c, []⟩
  | .resetSend status =>
      sendThen c st (.rstStream { streamId := st.streamId, status }) (.returned .ok)
  | .readLock =>
      if st.dataLocked then none else some ⟨.readTry, { st with dataLocked := true }, c, []⟩
  | .readTry =>
      match st.dataQueue with
      | d :: rest => some (receive c st d rest)
      | [] => some ⟨.readBorrow, st, c, []⟩
  | .readBorrow =>
      if st.remoteClosed then some (readReturn c st none) else some ⟨.readSelect, st, c, []⟩
  | .readSelect =>
      if alt then if st.remoteClosed then some ⟨.readDrain, st, c, []⟩ else none
      else
        match st.dataQueue with
        | d :: rest => some (receive c st d rest)
        | [] => none
  | .readDrain =>
      match st.dataQueue with
      | d :: rest => some (receive c st d rest)
      | [] => some (readReturn c st none)
  | .returned _ => none

/-- The future of a call is dropped: possible where it awaits, and the lock of
`data_rx` is released if it is held. -/
def callCancel (pc : CallPc H) (st : Stream H) : Option (CallPc H × Stream H) :=
  match pc with
  | .replySend _ _ | .writeWait _ _ _ | .writeSend _ _ | .resetSend _ | .readLock =>
      some (.returned .cancelled, st)
  | .readSelect => some (.returned .cancelled, { st with dataLocked := false })
  | _ => none

end SpdyStream.Session
