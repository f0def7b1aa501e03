/-
  Framing/Frame.lean --- frames, status codes and errors (`frame.rs`, `error.rs`).

  Frames are generic in the type of header maps: the framer fixes it to the
  header maps of the `http` crate, and the connection never looks inside one.

  A call that can fail returns in `Except Fault`.  A `Fault` is either an error
  value handed to the caller or a panic, which no caller catches.
-/
import SpdyStream.Foundation.Words

set_option autoImplicit false

namespace SpdyStream.Framing

open SpdyStream.Foundation

/-! ## Errors -/

/-- The kinds of I/O error that the framer tells apart. -/
inductive IoErrorKind where
  | unexpectedEof
  | other
  deriving DecidableEq, Repr

/-- `Error`. -/
inductive Error where
  | io (kind : IoErrorKind)
  | protocol (message : String)
  | compression (message : String)
  | unknownFrameType (frameType : UInt16)
  | streamClosed
  | connectionClosed
  deriving DecidableEq, Repr

/-- How a call ends when it does not return a value. -/
inductive Fault where
  /-- the call returns `Err` -/
  | error (e : Error)
  /-- the call panics: the task it runs in is gone -/
  | panic
  deriving DecidableEq, Repr

/-! ## Flags -/

/-- `FLAG_FIN`. -/
def flagFin : UInt8 := 0x01
/-- `FLAG_UNIDIRECTIONAL`. -/
def flagUnidirectional : UInt8 := 0x02
/-- `DATA_FLAG_FIN`. -/
def dataFlagFin : UInt8 := 0x01

/-! ## Status codes -/

/-- `RstStatus`. -/
inductive RstStatus where
  | protocolError
  | invalidStream
  | refusedStream
  | unsupportedVersion
  | cancel
  | internalError
  | flowControlError
  | streamInUse
  | streamAlreadyClosed
  | invalidCredentials
  | frameTooLarge
  deriving DecidableEq, Repr

namespace RstStatus

/-- `status as u32`. -/
def toU32 : RstStatus → UInt32
  | .protocolError => 1
  | .invalidStream => 2
  | .refusedStream => 3
  | .unsupportedVersion => 4
  | .cancel => 5
  | .internalError => 6
  | .flowControlError => 7
  | .streamInUse => 8
  | .streamAlreadyClosed => 9
  | .invalidCredentials => 10
  | .frameTooLarge => 11

/-- `RstStatus::try_from`. -/
def tryFrom (v : UInt32) : Except UInt32 RstStatus :=
  match v.toNat with
  | 1 => .ok .protocolError
  | 2 => .ok .invalidStream
  | 3 => .ok .refusedStream
  | 4 => .ok .unsupportedVersion
  | 5 => .ok .cancel
  | 6 => .ok .internalError
  | 7 => .ok .flowControlError
  | 8 => .ok .streamInUse
  | 9 => .ok .streamAlreadyClosed
  | 10 => .ok .invalidCredentials
  | 11 => .ok .frameTooLarge
  | _ => .error v

@[simp] theorem tryFrom_toU32 (s : RstStatus) : tryFrom s.toU32 = .ok s := by
  cases s <;> rfl

end RstStatus

/-- `GoAwayStatus`. -/
inductive GoAwayStatus where
  | ok
  | protocolError
  | internalError
  deriving DecidableEq, Repr

namespace GoAwayStatus

/-- `status as u32`. -/
def toU32 : GoAwayStatus → UInt32
  | .ok => 0
  | .protocolError => 1
  | .internalError => 2

/-- `GoAwayStatus::try_from`: an unknown code is read as `Ok`. -/
def tryFrom (v : UInt32) : Except UInt32 GoAwayStatus :=
  match v.toNat with
  | 0 => .ok .ok
  | 1 => .ok .protocolError
  | 2 => .ok .internalError
  | _ => .ok .ok

@[simp] theorem tryFrom_toU32 (s : GoAwayStatus) : tryFrom s.toU32 = .ok s := by
  cases s <;> rfl

end GoAwayStatus

/-! ## Frames -/

structure SynStreamFrame (H : Type) where
  streamId : UInt32
  associatedStreamId : UInt32
  priority : UInt8
  headers : H
  flags : UInt8
  deriving DecidableEq, Repr

structure SynReplyFrame (H : Type) where
  streamId : UInt32
  headers : H
  flags : UInt8
  deriving DecidableEq, Repr

structure RstStreamFrame where
  streamId : UInt32
  status : RstStatus
  deriving DecidableEq, Repr

structure Setting where
  id : UInt32
  flags : UInt8
  value : UInt32
  deriving DecidableEq, Repr

structure SettingsFrame where
  settings : List Setting
  flags : UInt8
  deriving DecidableEq, Repr

structure PingFrame where
  id : UInt32
  deriving DecidableEq, Repr

structure GoAwayFrame where
  lastGoodStreamId : UInt32
  status : GoAwayStatus
  deriving DecidableEq, Repr

structure HeadersFrame (H : Type) where
  streamId : UInt32
  headers : H
  flags : UInt8
  deriving DecidableEq, Repr

structure WindowUpdateFrame where
  streamId : UInt32
  delta : UInt32
  deriving DecidableEq, Repr

structure DataFrame where
  streamId : UInt32
  flags : UInt8
  data : Bytes
  deriving DecidableEq, Repr

/-- `Frame`. -/
inductive Frame (H : Type) where
  | synStream (f : SynStreamFrame H)
  | synReply (f : SynReplyFrame H)
  | rstStream (f : RstStreamFrame)
  | settings (f : SettingsFrame)
  | ping (f : PingFrame)
  | goAway (f : GoAwayFrame)
  | headers (f : HeadersFrame H)
  | windowUpdate (f : WindowUpdateFrame)
  | data (f : DataFrame)
  deriving DecidableEq, Repr

/-- The stream a frame is for; zero for the frames of the connection. -/
def Frame.target {H : Type} : Frame H → UInt32
  | .synStream f => f.streamId
  | .synReply f => f.streamId
  | .rstStream f => f.streamId
  | .headers f => f.streamId
  | .data f => f.streamId
  | .windowUpdate f => f.streamId
  | .settings _ | .ping _ | .goAway _ => 0

end SpdyStream.Framing
