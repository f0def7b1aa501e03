/-
  Framing/Framer.lean --- the framer (`framer.rs`): state, header compression,
  the writers and the readers.

  A `Framer` call is a state transformer over the bytes written, the bytes still
  to be read, and the two zlib streams.  It keeps the state it reached when it
  fails, as the source does.  The writer is what the transport has taken, with the
  room that is left where it fails later on; the reader is the byte string the peer
  sends, followed by the end of input or an I/O error.

  `usize` is 64 bits wide in this file.
-/
import SpdyStream.Framing.Dictionary
import SpdyStream.Framing.HeaderBlock
import SpdyStream.Framing.Zlib

set_option autoImplicit false

namespace SpdyStream.Framing

open SpdyStream.Foundation

/-- The width of `usize`. -/
def usizeBits : Nat := 64

def spdyVersion : UInt16 := 3
def typeSynStream : UInt16 := 1
def typeSynReply : UInt16 := 2
def typeRstStream : UInt16 := 3
def typeSettings : UInt16 := 4
def typePing : UInt16 := 6
def typeGoAway : UInt16 := 7
def typeHeaders : UInt16 := 8
def typeWindowUpdate : UInt16 := 9

/-! ## State -/

/-- The reading half: the bytes to come, and what a read past them reports. -/
structure Reader where
  bytes : Bytes
  atEnd : IoErrorKind
  deriving DecidableEq, Repr

/-- `Framer`. -/
structure Framer (Z : Zlib) where
  /-- the bytes that the transport has taken -/
  writer : Bytes
  /-- the number of bytes it takes before it fails, if it fails -/
  room : Option Nat
  reader : Reader
  compressor : Z.Compress
  decompressor : Option Z.Decompress

variable {Z : Zlib} {X : Http}

/-- A call on a framer. -/
abbrev FramerM (Z : Zlib) (α : Type) : Type := EStateM Fault (Framer Z) α

/-- A call that does not touch the framer. -/
def FramerM.lift {α : Type} (x : Except Fault α) : FramerM Z α :=
  fun fr => match x with
    | .ok a => .ok a fr
    | .error e => .error e fr

/-- `Framer::new`, on a transport that does not fail. -/
def Framer.new (Z : Zlib) (writer : Bytes) (reader : Reader) : Framer Z where
  writer := writer
  room := none
  reader := reader
  compressor := Z.compressDictionary Z.newCompress spdyDict
  decompressor := none

/-! ## Header compression -/

/-- The `compress` call of `compress_headers` on the encoded block. -/
def compressBlock (Z : Zlib) (c : Z.Compress) (raw : Bytes) : Compressed Z.Compress :=
  Z.compress c raw (raw.length * 2 + 512)

/-- `compress_headers`. -/
def compressHeaders (headers : HeaderMap X) : FramerM Z Bytes := fun fr =>
  let out := compressBlock Z fr.compressor (encodeHeaders headers)
  let fr := { fr with compressor := out.state }
  match out.status with
  | .error e => .error (.error (.compression e)) fr
  | .ok .bufError => .error (.error (.compression "compress buffer error")) fr
  | .ok _ => .ok out.produced fr

/-- The output vector of `decompress_headers`: what it holds and its capacity. -/
structure Output where
  bytes : Bytes
  capacity : Nat

/-- The growth step: `output.reserve(output.capacity().max(512))` when full. -/
def Output.grow (o : Output) : Output :=
  if o.bytes.length = o.capacity then { o with capacity := o.capacity + max o.capacity 512 }
  else o

/-- The loop of `decompress_headers`, for as many rounds as given; the state of
the decompressor is returned with the outcome.  Running out of rounds is
reported as a panic; `decompressLoop_rounds` shows that two are never too few. -/
def decompressLoop (Z : Zlib) (compressed : Bytes) :
    Nat → Z.Decompress → Nat → Output → Except Fault Bytes × Z.Decompress
  | 0, dec, _, _ => (.error .panic, dec)
  | rounds + 1, dec, pos, output =>
      let output := output.grow
      match slice compressed pos compressed.length with
      | .error e => (.error e, dec)
      | .ok input =>
          let d := Z.decompressVec dec input (output.capacity - output.bytes.length)
          let output := { output with bytes := output.bytes ++ d.produced }
          match d.status with
          | .ok _ => (.ok output.bytes, d.state)
          | .error (.other e) => (.error (.error (.compression e)), d.state)
          | .error .needsDictionary =>
              -- Dict needed: advance by what was consumed, set dict, continue.
              let pos := pos + d.consumed
              match Z.setDictionary d.state spdyDict with
              | .error e2 => (.error (.error (.compression e2)), d.state)
              | .ok dec =>
                  if pos ≥ compressed.length then (.ok output.bytes, dec)
                  else decompressLoop Z compressed rounds dec pos output

/-- The output capacity that `decompress_headers` starts with. -/
def initialCapacity (compressed : Bytes) : Nat := compressed.length * 4 + 512

/-- The decompression part of `decompress_headers`. -/
def decompressBlock (Z : Zlib) (dec : Z.Decompress) (compressed : Bytes) :
    Except Fault Bytes × Z.Decompress :=
  decompressLoop Z compressed 2 dec 0 ⟨[], initialCapacity compressed⟩

/-- `decompress_headers`. -/
def decompressHeaders (X : Http) (compressed : Bytes) : FramerM Z (HeaderMap X) := fun fr =>
  let (output, dec) := decompressBlock Z (fr.decompressor.getD Z.newDecompress) compressed
  FramerM.lift (output.bind (parseHeaderBlock X usizeBits)) { fr with decompressor := some dec }

/-! ## Writing -/

/-- `write_all`: a transport that fails has taken a part of the bytes before. -/
def writeAll (bytes : Bytes) : FramerM Z Unit := fun fr =>
  match fr.room with
  | none => .ok () { fr with writer := fr.writer ++ bytes }
  | some n =>
      if bytes.length ≤ n then
        .ok () { fr with writer := fr.writer ++ bytes, room := some (n - bytes.length) }
      else
        .error (.error (.io .other))
          { fr with writer := fr.writer ++ bytes.take n, room := some 0 }

/-- The three length bytes of a frame header. -/
def lengthBytes (len : UInt32) : Bytes :=
  [((len >>> 16) &&& 0xff).toUInt8, ((len >>> 8) &&& 0xff).toUInt8, (len &&& 0xff).toUInt8]

/-- `write_control_frame`. -/
def writeControlFrame (frameType : UInt16) (flags : UInt8) (payload : Bytes) : FramerM Z Unit := do
  let len := UInt32.ofNat payload.length
  let word0 := toBeBytes16 (0x8000 ||| spdyVersion)
  let typeBytes := toBeBytes16 frameType
  writeAll (word0 ++ typeBytes ++ [flags] ++ lengthBytes len)
  writeAll payload

/-- `write_data_frame`. -/
def writeDataFrame (frame : DataFrame) : FramerM Z Unit := do
  let streamId := frame.streamId &&& 0x7fffffff
  let len := UInt32.ofNat frame.data.length
  writeAll (toBeBytes32 streamId ++ [frame.flags] ++ lengthBytes len)
  writeAll frame.data

/-- The payload that `write_syn_stream` builds around a compressed block. -/
def synStreamPayload (f : SynStreamFrame (HeaderMap X)) (compressed : Bytes) : Bytes :=
  toBeBytes32 (f.streamId &&& 0x7fffffff) ++ toBeBytes32 (f.associatedStreamId &&& 0x7fffffff) ++
    [(f.priority &&& 0x7) <<< 5, 0] ++ compressed

/-- The payload that `write_syn_reply` and `write_headers` build. -/
def streamIdPayload (streamId : UInt32) (compressed : Bytes) : Bytes :=
  toBeBytes32 (streamId &&& 0x7fffffff) ++ compressed

/-- The payload of `write_rst_stream`. -/
def rstStreamPayload (f : RstStreamFrame) : Bytes :=
  toBeBytes32 (f.streamId &&& 0x7fffffff) ++ toBeBytes32 f.status.toU32

/-- One entry of the payload of `write_settings`: flags in the high byte, the id
in the other three, then the value. -/
def encodeSetting (s : Setting) : Bytes :=
  toBeBytes32 ((s.flags.toUInt32 <<< 24) ||| (s.id &&& 0x00ffffff)) ++ toBeBytes32 s.value

/-- The payload of `write_settings`. -/
def settingsPayload (f : SettingsFrame) : Bytes :=
  toBeBytes32 (UInt32.ofNat f.settings.length) ++ f.settings.flatMap encodeSetting

/-- The payload of `write_goaway`. -/
def goAwayPayload (f : GoAwayFrame) : Bytes :=
  toBeBytes32 (f.lastGoodStreamId &&& 0x7fffffff) ++ toBeBytes32 f.status.toU32

/-- The payload of `write_window_update`. -/
def windowUpdatePayload (f : WindowUpdateFrame) : Bytes :=
  toBeBytes32 (f.streamId &&& 0x7fffffff) ++ toBeBytes32 (f.delta &&& 0x7fffffff)

def writeSynStream (f : SynStreamFrame (HeaderMap X)) : FramerM Z Unit := do
  let compressed ← compressHeaders f.headers
  writeControlFrame typeSynStream f.flags (synStreamPayload f compressed)

def writeSynReply (f : SynReplyFrame (HeaderMap X)) : FramerM Z Unit := do
  let compressed ← compressHeaders f.headers
  writeControlFrame typeSynReply f.flags (streamIdPayload f.streamId compressed)

def writeRstStream (f : RstStreamFrame) : FramerM Z Unit :=
  writeControlFrame typeRstStream 0 (rstStreamPayload f)

def writeSettings (f : SettingsFrame) : FramerM Z Unit :=
  writeControlFrame typeSettings f.flags (settingsPayload f)

def writePing (f : PingFrame) : FramerM Z Unit :=
  writeControlFrame typePing 0 (toBeBytes32 f.id)

def writeGoAway (f : GoAwayFrame) : FramerM Z Unit :=
  writeControlFrame typeGoAway 0 (goAwayPayload f)

def writeHeaders (f : HeadersFrame (HeaderMap X)) : FramerM Z Unit := do
  let compressed ← compressHeaders f.headers
  writeControlFrame typeHeaders f.flags (streamIdPayload f.streamId compressed)

def writeWindowUpdate (f : WindowUpdateFrame) : FramerM Z Unit :=
  writeControlFrame typeWindowUpdate 0 (windowUpdatePayload f)

/-- `write_frame`. -/
def writeFrame : Frame (HeaderMap X) → FramerM Z Unit
  | .synStream f => writeSynStream f
  | .synReply f => writeSynReply f
  | .rstStream f => writeRstStream f
  | .settings f => writeSettings f
  | .ping f => writePing f
  | .goAway f => writeGoAway f
  | .headers f => writeHeaders f
  | .windowUpdate f => writeWindowUpdate f
  | .data f => writeDataFrame f

/-! ## Reading -/

/-- `read_exact`, with what the caller makes of its error. -/
def readExact (n : Nat) (mapErr : IoErrorKind → Error) : FramerM Z Bytes := fun fr =>
  if n ≤ fr.reader.bytes.length then
    .ok (fr.reader.bytes.take n)
      { fr with reader := { fr.reader with bytes := fr.reader.bytes.drop n } }
  else
    .error (.error (mapErr fr.reader.atEnd)) { fr with reader := { fr.reader with bytes := [] } }

/-- A stream id at a position of a payload. -/
def maskedWord (payload : Bytes) (i : Nat) : Except Fault UInt32 := do
  let word ← beWord payload i
  return word &&& 0x7fffffff

def parseSynStream (X : Http) (flags : UInt8) (payload : Bytes) :
    FramerM Z (Frame (HeaderMap X)) :=
  if payload.length < 10 then throw (.error (.protocol "SynStream too short"))
  else do
    let streamId ← FramerM.lift (maskedWord payload 0)
    let associatedStreamId ← FramerM.lift (maskedWord payload 4)
    let byte ← FramerM.lift (index payload 8)
    let priority := (byte >>> 5) &&& 0x7
    let compressed ← FramerM.lift (slice payload 10 payload.length)
    let headers ← decompressHeaders X compressed
    return .synStream { streamId, associatedStreamId, priority, headers, flags }

def parseSynReply (X : Http) (flags : UInt8) (payload : Bytes) :
    FramerM Z (Frame (HeaderMap X)) :=
  if payload.length < 4 then throw (.error (.protocol "SynReply too short"))
  else do
    let streamId ← FramerM.lift (maskedWord payload 0)
    let compressed ← FramerM.lift (slice payload 4 payload.length)
    let headers ← decompressHeaders X compressed
    return .synReply { streamId, headers, flags }

def parseHeaders (X : Http) (flags : UInt8) (payload : Bytes) :
    FramerM Z (Frame (HeaderMap X)) :=
  if payload.length < 4 then throw (.error (.protocol "Headers frame too short"))
  else do
    let streamId ← FramerM.lift (maskedWord payload 0)
    let compressed ← FramerM.lift (slice payload 4 payload.length)
    let headers ← decompressHeaders X compressed
    return .headers { streamId, headers, flags }

def parseRstStream (X : Http) (payload : Bytes) : Except Fault (Frame (HeaderMap X)) :=
  if payload.length < 8 then protocolError "RstStream too short"
  else do
    let streamId ← maskedWord payload 0
    let statusCode ← beWord payload 4
    match RstStatus.tryFrom statusCode with
    | .ok status => return .rstStream { streamId, status }
    | .error _ => protocolError s!"unknown RST_STREAM status: {statusCode}"

/-- One round of the loop of `parse_settings`. -/
def settingAt (width : Nat) (payload : Bytes) (i : Nat) : Except Fault Setting := do
  let offset := usizeAdd width 4 (usizeMul width i 8)
  let idFlags ← beWord payload offset
  let value ← beWord payload (usizeAdd width offset 4)
  return {
    id := idFlags &&& 0x00ffffff
    flags := ((idFlags >>> 24) &&& 0xff).toUInt8
    value }

/-- The loop of `parse_settings`, from round `i` for `n` rounds. -/
def settingsLoop (width : Nat) (payload : Bytes) : Nat → Nat → Except Fault (List Setting)
  | 0, _ => .ok []
  | n + 1, i => do
      let s ← settingAt width payload i
      let rest ← settingsLoop width payload n (i + 1)
      return s :: rest

def parseSettings (X : Http) (width : Nat) (flags : UInt8) (payload : Bytes) :
    Except Fault (Frame (HeaderMap X)) :=
  if payload.length < 4 then protocolError "Settings too short"
  else do
    let count := (← beWord payload 0).toNat
    if payload.length < usizeAdd width 4 (usizeMul width count 8) then
      protocolError "Settings payload truncated"
    else do
      let settings ← settingsLoop width payload count 0
      return .settings { settings, flags }

def parsePing (X : Http) (payload : Bytes) : Except Fault (Frame (HeaderMap X)) :=
  if payload.length < 4 then protocolError "Ping too short"
  else do
    let id ← beWord payload 0
    return .ping { id }

def parseGoAway (X : Http) (payload : Bytes) : Except Fault (Frame (HeaderMap X)) :=
  if payload.length < 8 then protocolError "GoAway too short"
  else do
    let lastGoodStreamId ← maskedWord payload 0
    let statusCode ← beWord payload 4
    match GoAwayStatus.tryFrom statusCode with
    | .ok status => return .goAway { lastGoodStreamId, status }
    | .error _ => protocolError s!"unknown GOAWAY status: {statusCode}"

def parseWindowUpdate (X : Http) (payload : Bytes) : Except Fault (Frame (HeaderMap X)) :=
  if payload.length < 8 then protocolError "WindowUpdate too short"
  else do
    let streamId ← maskedWord payload 0
    let delta ← maskedWord payload 4
    return .windowUpdate { streamId, delta }

/-- `parse_control_frame`. -/
def parseControlFrame (X : Http) (frameType : UInt16) (flags : UInt8) (payload : Bytes) :
    FramerM Z (Frame (HeaderMap X)) :=
  if frameType = typeSynStream then parseSynStream X flags payload
  else if frameType = typeSynReply then parseSynReply X flags payload
  else if frameType = typeRstStream then FramerM.lift (parseRstStream X payload)
  else if frameType = typeSettings then FramerM.lift (parseSettings X usizeBits flags payload)
  else if frameType = typePing then FramerM.lift (parsePing X payload)
  else if frameType = typeGoAway then FramerM.lift (parseGoAway X payload)
  else if frameType = typeHeaders then parseHeaders X flags payload
  else if frameType = typeWindowUpdate then FramerM.lift (parseWindowUpdate X payload)
  else throw (.error (.unknownFrameType frameType))

/-- What `read_frame` makes of a failed read of the frame header. -/
def headerReadError : IoErrorKind → Error
  | .unexpectedEof => .connectionClosed
  | .other => .io .other

/-- `read_frame`. -/
def readFrame (X : Http) : FramerM Z (Frame (HeaderMap X)) := do
  let header ← readExact 8 headerReadError
  match header with
  | [h0, h1, h2, h3, flags, h5, h6, h7] =>
      let length := (h5.toUInt32 <<< 16) ||| (h6.toUInt32 <<< 8) ||| h7.toUInt32
      if (h0 &&& 0x80) ≠ 0 then do
        let version := fromBeBytes16 (h0 &&& 0x7f) h1
        let frameType := fromBeBytes16 h2 h3
        if version ≠ spdyVersion then
          throw (.error (.protocol s!"unsupported SPDY version: {version}"))
        else do
          let payload ← readExact length.toNat Error.io
          parseControlFrame X frameType flags payload
      else do
        let streamId := fromBeBytes32 (h0 &&& 0x7f) h1 h2 h3
        let data ← readExact length.toNat Error.io
        return .data { streamId, flags, data }
  | _ => throw .panic

end SpdyStream.Framing
