/-
  Upgrade/Server.lean --- the HTTP upgrade (`server.rs`): `parse_upgrade_request`,
  `parse_http_request`, the 101 response and `accept`.

  The request is read from a `Reader`, the bytes the peer sends followed by the
  end of input or an I/O error; the state left behind is what the stream yields
  next.  `HeaderValue::from_str` is a parameter beside the `http` crate.

  What the handler of a `ServerConfig` does with a stream is any sequence of
  calls (`Session/Connection.lean`), and nothing reads its timeouts, so a
  configuration is not kept.
-/
import SpdyStream.Session.Connection
import SpdyStream.Upgrade.Text

set_option autoImplicit false

namespace SpdyStream.Upgrade

open SpdyStream.Foundation SpdyStream.Framing

variable {X : Http}

/-- `HeaderValue::from_str`. -/
structure FromStr (X : Http) where
  /-- whether it accepts a text of these bytes -/
  headerValue : Bytes → Bool
  /-- what it accepts is a value -/
  accepted : ∀ {v : Bytes}, headerValue v = true → X.headerValue v = true

/-- `HeaderValue::from_str` on a text. -/
def FromStr.value (S : FromStr X) (value : Str) : Option (HeaderValue X) :=
  if h : S.headerValue (asBytes value) = true then some ⟨asBytes value, S.accepted h⟩ else none

/-- `UpgradeRequest`. -/
structure UpgradeRequest (X : Http) where
  path : Str
  headers : HeaderMap X
  method : Str
  deriving DecidableEq

/-! ## Reading the head of the request -/

/-- The most bytes read before `HTTP request too large`. -/
def maxRequest : Nat := 8192

/-- `b == b'\r' || b == b'\n'`. -/
def isLineEnd (b : UInt8) : Bool := b = 13 || b = 10

theorem isLineEnd_iff {b : UInt8} : isLineEnd b = true ↔ b = 13 ∨ b = 10 := by
  simp [isLineEnd]

/-- The loop of `parse_upgrade_request`: `buf` is what has been read, of which the
last `consecutiveCrlf` bytes end lines.  The counter never passes four. -/
def readHead (atEnd : IoErrorKind) (buf : Bytes) (consecutiveCrlf : Nat) :
    Bytes → EStateM.Result Fault Reader Bytes
  | [] => .error (.error (.io atEnd)) ⟨[], atEnd⟩
  | b :: rest =>
      let buf := buf ++ [b]
      let consecutiveCrlf := if isLineEnd b then consecutiveCrlf + 1 else 0
      if isLineEnd b ∧ consecutiveCrlf = 4 then .ok buf ⟨rest, atEnd⟩
      else if maxRequest < buf.length then
        .error (.error (.protocol "HTTP request too large")) ⟨rest, atEnd⟩
      else readHead atEnd buf consecutiveCrlf rest

/-! ## Parsing the head -/

/-- `ok_or_else` with a protocol error. -/
def okOr {α : Type} (x : Option α) (message : String) : Except Fault α :=
  match x with
  | some a => .ok a
  | none => protocolError message

/-- The loop over the header lines: the map so far, and whether an upgrade to
SPDY was among them. -/
def parseHeaderLines (S : FromStr X) :
    List Str → HeaderMap X → Bool → Except Fault (HeaderMap X × Bool)
  | [], headers, hasSpdyUpgrade => .ok (headers, hasSpdyUpgrade)
  | line :: lines, headers, hasSpdyUpgrade =>
      if line.isEmpty then .ok (headers, hasSpdyUpgrade)
      else do
        let colon ← okOr (findColon line) ("invalid header line: " ++ String.ofList line)
        let name := trim (line.take colon)
        let value := trim (line.drop (colon + 1))
        let hasSpdyUpgrade :=
          hasSpdyUpgrade || (eqIgnoreAsciiCase name "upgrade".toList &&
            eqIgnoreAsciiCase value "spdy/3.1".toList)
        let headerName ← okOr (HeaderName.fromBytes X (asBytes name)).toOption
          ("invalid header name: " ++ String.ofList name)
        let headerValue ← okOr (S.value value)
          ("invalid header value: " ++ String.ofList value)
        let headers ← headers.append headerName headerValue
        parseHeaderLines S lines headers hasSpdyUpgrade

/-- `parse_http_request`. -/
def parseHttpRequest (S : FromStr X) (text : Str) : Except Fault (UpgradeRequest X) := do
  let lines := splitCrlf text
  let requestLine ← okOr lines.head? "empty HTTP request"
  let parts := splitnSpace 3 requestLine
  let method ← okOr parts[0]? "missing method"
  let path ← okOr parts[1]? "missing path"
  -- The HTTP version is not needed, but it must be present.
  let _ ← okOr parts[2]? "missing HTTP version"
  let (headers, hasSpdyUpgrade) ← parseHeaderLines S lines.tail (HeaderMap.new X) false
  if !hasSpdyUpgrade then protocolError "missing or incorrect Upgrade: spdy/3.1 header"
  else return { path, headers, method }

/-- What `parse_upgrade_request` does with the bytes it has read. -/
def parseHead (S : FromStr X) (buf : Bytes) : Except Fault (UpgradeRequest X) := do
  let text ← okOr (fromUtf8 buf) "non-UTF8 HTTP request"
  parseHttpRequest S text

/-- `parse_upgrade_request`. -/
def parseUpgradeRequest (S : FromStr X) : EStateM Fault Reader (UpgradeRequest X) := fun stream =>
  match readHead stream.atEnd [] 0 stream.bytes with
  | .error e stream => .error e stream
  | .ok buf stream =>
      match parseHead S buf with
      | .error e => .error e stream
      | .ok request => .ok request stream

/-! ## The response -/

/-- The writing half of a stream: the bytes written so far, and the error that
`write_all` reports where it fails. -/
structure Writer where
  bytes : Bytes
  fails : Option IoErrorKind
  deriving DecidableEq, Repr

/-- `write_all`. -/
def writeAll (bs : Bytes) : EStateM Fault Writer Unit := fun stream =>
  match stream.fails with
  | some e => .error (.error (.io e)) stream
  | none => .ok () { stream with bytes := stream.bytes ++ bs }

/-- The text that `send_upgrade_response_with_protocol` writes. -/
def upgradeResponse : Option Str → Str
  | none =>
      ("HTTP/1.1 101 Switching Protocols\r\nConnection: Upgrade\r\n" ++
        "Upgrade: spdy/3.1\r\n\r\n").toList
  | some p =>
      ("HTTP/1.1 101 Switching Protocols\r\nConnection: Upgrade\r\n" ++
        "Upgrade: spdy/3.1\r\nX-Stream-Protocol-Version: ").toList ++ p ++ "\r\n\r\n".toList

/-- `send_upgrade_response_with_protocol`. -/
def sendUpgradeResponseWithProtocol (protocol : Option Str) : EStateM Fault Writer Unit :=
  writeAll (asBytes (upgradeResponse protocol))

/-- `send_upgrade_response`. -/
def sendUpgradeResponse : EStateM Fault Writer Unit := sendUpgradeResponseWithProtocol none

/-! ## Accepting a connection -/

/-- `TcpStream`. -/
structure TcpStream where
  reader : Reader
  writer : Writer

/-- What `Connection::serve` sets up: a framer for the write task, one for the
read task, and a connection. -/
structure Served (Z : Zlib) (X : Http) where
  writeFramer : Framer Z
  readFramer : Framer Z
  connection : Session.State (HeaderMap X)

/-- `Connection::serve`.  Each framer has nothing at its other end. -/
def serve (Z : Zlib) (X : Http) (io : TcpStream) : Served Z X where
  writeFramer := Framer.new Z io.writer.bytes ⟨[], .unexpectedEof⟩
  readFramer := Framer.new Z [] io.reader
  connection := Session.State.initial (HeaderMap X)

/-- `accept`. -/
def accept (S : FromStr X) (Z : Zlib) (stream : TcpStream) : Except Fault (Served Z X) :=
  match parseUpgradeRequest S stream.reader with
  | .error e _ => .error e
  | .ok _ reader =>
      match sendUpgradeResponse stream.writer with
      | .error e _ => .error e
      | .ok _ writer => .ok (serve Z X { reader, writer })

/-! ## Reference -/

/-- `HeaderValue::from_str` as the crate has it: it accepts what `from_bytes` does. -/
def FromStr.reference : FromStr Http.reference where
  headerValue := Http.reference.headerValue
  accepted h := h

end SpdyStream.Upgrade
