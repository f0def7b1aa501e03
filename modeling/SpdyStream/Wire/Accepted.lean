/-
  Wire/Accepted.lean --- a connection from the first byte of its transport.

  A client may send its first frames right behind its request, without waiting for the
  answer.  `accept` takes the request off the transport and no byte more, answers it, and
  the endpoint it leaves reads the frames.
-/
import SpdyStream.Upgrade.RequestRoundTrip
import SpdyStream.Wire.Outbound

set_option autoImplicit false

namespace SpdyStream.Wire

open SpdyStream.Foundation
open SpdyStream.Framing
open SpdyStream.Session
open SpdyStream.Upgrade

variable {Z : Zlib} {X : Http} {S : FromStr X}

/-- A request that asks for SPDY is taken off the transport, and no byte more. -/
theorem request_taken (hS : S.Documented) {method path version : Str} {headers : List (Str × Str)}
    (hreq : IsRequest method path version headers)
    (hlen : (asBytes (renderRequest method path version headers)).length ≤ maxRequest)
    (hasks : ∃ h ∈ headers, AsksUpgrade h) (rest : Bytes) (atEnd : IoErrorKind) :
    ∃ request, parseUpgradeRequest S
      ⟨asBytes (renderRequest method path version headers) ++ rest, atEnd⟩ =
        .ok request ⟨rest, atEnd⟩ := by
  obtain ⟨hcount, hnames⟩ := length_headers headers
  have hlimit : maxRequest = 2048 * 4 ∧ maxRequest < 2 ^ 16 := by decide
  have hparts :
      (asBytes (headers.flatMap fun h => renderHeader h ++ crlf)).length ≤ maxRequest := by
    refine Nat.le_trans ?_ hlen
    simp only [renderRequest, asBytes_append, List.length_append]
    omega
  obtain ⟨m, -, hparse⟩ := parseHttpRequest_rendered hS hreq
    (fun h hh => by have := hnames h hh; omega) (by omega)
  have hread : readHead atEnd [] 0 (asBytes (renderRequest method path version headers) ++ rest) =
      .ok (asBytes (renderRequest method path version headers)) ⟨rest, atEnd⟩ := by
    rw [renderRequest_eq_joinLines] at hlen ⊢
    exact readHead_joinLines (List.cons_ne_nil _ _) (isLine_of_isRequest hreq) hlen rest atEnd
  have hhead : parseHead S (asBytes (renderRequest method path version headers)) =
      .ok { path, headers := m, method } := by
    rw [if_pos hasks] at hparse
    rw [parseHead, fromUtf8_asBytes]
    exact hparse
  refine ⟨{ path, headers := m, method }, ?_⟩
  rw [parseUpgradeRequest]
  simp only [hread, hhead]

/-- What `accept` leaves of a transport that takes all bytes. -/
def acceptedTransport (stream : TcpStream) (rest : Bytes) : TcpStream where
  reader := ⟨rest, stream.reader.atEnd⟩
  writer := ⟨stream.writer.bytes ++ asBytes (upgradeResponse none), none⟩

theorem accept_serves (Z : Zlib) {stream : TcpStream} {rest : Bytes} {request : UpgradeRequest X}
    (hparse : parseUpgradeRequest S stream.reader = .ok request ⟨rest, stream.reader.atEnd⟩)
    (hopen : stream.writer.fails = none) :
    accept S Z stream = .ok (serve Z X (acceptedTransport stream rest)) := by
  have hsend : sendUpgradeResponse stream.writer =
      .ok () (acceptedTransport stream rest).writer := by
    unfold sendUpgradeResponse sendUpgradeResponseWithProtocol Upgrade.writeAll
    rw [hopen]
    rfl
  simp only [accept, hparse, hsend]
  rfl

/-- Frames are written behind what is there. -/
theorem writeFrames_adds (fs : List (Frame (HeaderMap X))) :
    ∀ {fr fr' : Framer Z}, writeFrames fs fr = .ok () fr' → fr.writer <+: fr'.writer := by
  induction fs with
  | nil =>
      intro fr fr' h
      cases h
      exact List.prefix_refl _
  | cons f fs ih =>
      intro fr fr' h
      obtain ⟨_, fr₁, hfirst, h⟩ := FramerM.bind_eq_ok.mp h
      have hone : fr.writer <+: fr₁.writer := by
        rcases writeFrame_adds f fr with ⟨fr₂, hwrite, hbegins⟩ | ⟨_, _, _, hwrite, -⟩
        · cases hwrite.symm.trans hfirst
          exact hbegins
        · cases hwrite.symm.trans hfirst
      exact hone.trans (ih h)

/-- What a client sees of a connection whose request and first frames it sent in one go. -/
structure Answered (stream : TcpStream) (fs : List (Frame (HeaderMap X)))
    (evs : List (Event (HeaderMap X))) (e : Served Z X) : Prop where
  /-- the answer to the request comes before every frame -/
  answer : stream.writer.bytes ++ asBytes (upgradeResponse none) <+: e.writeFramer.writer
  /-- and the frames behind the request are received as they were sent -/
  frames : Receives fs evs

/-- **From the first byte to the handlers.**  A client sends a request that asks for SPDY,
and any number of frames right behind it.  Then `accept` returns a connection, and in every
run of it the frames are received.  The answer to the request is written without a failure,
and the header blocks are among those that `decompressBlock` restores
(`headersRestored_iff`). -/
theorem accepted_receives (hS : S.Documented) {method path version : Str}
    {headers : List (Str × Str)} (hreq : IsRequest method path version headers)
    (hshort : (asBytes (renderRequest method path version headers)).length ≤ maxRequest)
    (hasks : ∃ h ∈ headers, AsksUpgrade h) {fs : List (Frame (HeaderMap X))} {source : Reader}
    {peer : Framer Z} (hwritten : writeFrames fs (Framer.new Z [] source) = .ok () peer)
    {stream : TcpStream} {sent : Bytes} (hcut : sent <+: peer.writer)
    (hbytes : stream.reader.bytes =
      asBytes (renderRequest method path version headers) ++ sent)
    (hopen : stream.writer.fails = none) (hrange : ∀ f ∈ fs, f.InRange)
    (hlen : ∀ p ∈ withBlocks Z Z.start fs, (p.1.payload p.2).length < 2 ^ 24)
    (hzlib : BlocksRestored Z Z.start Z.newDecompress (rawBlocks fs)) :
    ∃ io, accept S Z stream = .ok (serve Z X io) ∧
      ∀ evs e, (endpoint Z X io).Reached evs e → Answered stream fs evs e := by
  obtain ⟨request, hparse⟩ := request_taken hS hreq hshort hasks sent stream.reader.atEnd
  rw [← hbytes] at hparse
  refine ⟨acceptedTransport stream sent, accept_serves Z hparse hopen, fun evs e h => ?_⟩
  refine ⟨?_, receives_of_frames h (frames_received hwritten hcut hrange hlen hzlib h)⟩
  obtain ⟨written, fr, part, hwrites⟩ := writes_run h
  rw [hwrites.bytes]
  exact (writeFrames_adds written hwrites.write).trans (List.prefix_append _ _)

/-- The request of a client, and behind it the frames that open a stream. -/
def eagerClient : TcpStream where
  reader := ⟨asBytes (renderRequest "GET".toList "/exec".toList "HTTP/1.1".toList someHeaders) ++
    (writerOf peerFrames).writer, .unexpectedEof⟩
  writer := ⟨[], none⟩

theorem accepted_receives_eager :
    ∃ io, accept FromStr.reference Zlib.reference eagerClient =
        .ok (serve Zlib.reference Http.reference io) ∧
      ∀ evs e, (endpoint Zlib.reference Http.reference io).Reached evs e →
        Answered eagerClient peerFrames evs e := by
  have hreq : IsRequest "GET".toList "/exec".toList "HTTP/1.1".toList someHeaders :=
    { method := by simp, path := by simp, version := by simp, headers := by decide +kernel }
  have hwritten : writeFrames peerFrames (Framer.new Zlib.reference [] ⟨[], .other⟩) =
      .ok () (writerOf peerFrames) := rfl
  exact accepted_receives FromStr.documented_reference hreq (by decide +kernel)
    (by decide +kernel) hwritten (List.prefix_refl _) rfl rfl (by decide +kernel)
    (by decide +kernel) ⟨by decide +kernel, by decide +kernel, trivial⟩

end SpdyStream.Wire
