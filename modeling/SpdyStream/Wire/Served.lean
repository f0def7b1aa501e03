/-
  Wire/Served.lean --- an endpoint and a peer that speaks SPDY.

  Where the bytes on the transport are those of frames that the peer has written, cut off
  anywhere, reading does not panic: the endpoint reads the frames that have come in whole, up
  to the first GOAWAY, shuts down, and has by then echoed every PING among them.
-/
import SpdyStream.Session.Echo
import SpdyStream.Wire.Ended

set_option autoImplicit false

namespace SpdyStream.Wire

open SpdyStream.Foundation
open SpdyStream.Framing
open SpdyStream.Session
open SpdyStream.Upgrade

variable {Z : Zlib} {X : Http} {H : Type}

/-! ## Frames up to a GOAWAY -/

/-- Some frames up to the first GOAWAY. -/
def untilGoAway : List (Frame H) → List (Frame H)
  | [] => []
  | .goAway g :: _ => [.goAway g]
  | f :: fs => f :: untilGoAway fs

theorem untilGoAway_cons {f : Frame H} (h : ∀ g, f ≠ .goAway g) (fs : List (Frame H)) :
    untilGoAway (f :: fs) = f :: untilGoAway fs := by
  cases f with
  | goAway g => exact absurd rfl (h g)
  | _ => rfl

/-- The loop takes the frames up to the first GOAWAY, if an error comes behind all of them. -/
theorem loopReads_untilGoAway {last : Framer Z} (hlast : LoopReads X last [] .teardown)
    (gs : List (Frame (HeaderMap X))) : ∀ fr : Framer Z,
      readFrames X gs.length fr = .ok gs last → LoopReads X fr (untilGoAway gs) .teardown := by
  induction gs with
  | nil =>
      intro fr hread
      cases hread
      exact hlast
  | cons f gs ih =>
      intro fr hread
      obtain ⟨f', fr₁, hfirst, hread⟩ := FramerM.bind_eq_ok.mp hread
      obtain ⟨gs', fr₂, hrest, hread⟩ := FramerM.bind_eq_ok.mp hread
      cases hread
      by_cases hgo : ∃ g, f = .goAway g
      · obtain ⟨g, rfl⟩ := hgo
        exact .goAway hfirst
      · have hother : ∀ g, f ≠ .goAway g := fun g hg => hgo ⟨g, hg⟩
        rw [untilGoAway_cons hother]
        exact .next hfirst hother (ih fr₁ hrest)

/-- The bytes determine what the loop reads. -/
theorem LoopReads.unique {fr : Framer Z} {fs gs : List (Frame (HeaderMap X))} {out out' : LoopEnd}
    (h : LoopReads X fr fs out) (h' : LoopReads X fr gs out') : fs = gs ∧ out = out' := by
  induction h generalizing gs with
  | goAway hread =>
      cases h' with
      | goAway hread' =>
          cases hread.symm.trans hread'
          exact ⟨rfl, rfl⟩
      | next hread' hgo _ =>
          cases hread.symm.trans hread'
          exact absurd rfl (hgo _)
      | fails hread' | panics hread' => cases hread.symm.trans hread'
  | next hread hgo _ ih =>
      cases h' with
      | goAway hread' =>
          cases hread.symm.trans hread'
          exact absurd rfl (hgo _)
      | next hread' _ hrest =>
          cases hread.symm.trans hread'
          obtain ⟨rfl, rfl⟩ := ih hrest
          exact ⟨rfl, rfl⟩
      | fails hread' | panics hread' => cases hread.symm.trans hread'
  | fails hread =>
      cases h' with
      | fails _ => exact ⟨rfl, rfl⟩
      | goAway hread' | next hread' _ _ | panics hread' => cases hread.symm.trans hread'
  | panics hread =>
      cases h' with
      | panics _ => exact ⟨rfl, rfl⟩
      | goAway hread' | next hread' _ _ | fails hread' => cases hread.symm.trans hread'

/-! ## Frames that agree -/

/-- A frame without headers agrees with itself only. -/
theorem same_goAway {f g : Frame (HeaderMap X)} (h : f.Same g) (x : GoAwayFrame) :
    f = .goAway x ↔ g = .goAway x := by
  unfold Frame.Same at h
  split at h
  · rw [h]
  · obtain ⟨-, rfl⟩ := h
    cases g with
    | goAway y => rfl
    | _ => simp [Frame.withHeaders]
  · cases h

theorem untilGoAway_same {gs fs : List (Frame (HeaderMap X))} (h : List.Forall₂ Frame.Same gs fs) :
    List.Forall₂ Frame.Same (untilGoAway gs) (untilGoAway fs) := by
  induction h with
  | nil => exact .nil
  | @cons g f gs fs hsame _ ih =>
      by_cases hgo : ∃ x, g = .goAway x
      · obtain ⟨x, rfl⟩ := hgo
        obtain rfl := (same_goAway hsame x).mp rfl
        exact .cons hsame .nil
      · have hg : ∀ x, g ≠ .goAway x := fun x hx => hgo ⟨x, hx⟩
        have hf : ∀ x, f ≠ .goAway x := fun x hx => hg x ((same_goAway hsame x).mpr hx)
        rw [untilGoAway_cons hg, untilGoAway_cons hf]
        exact .cons hsame ih

theorem peerPing_same {f g : Frame (HeaderMap X)} (h : f.Same g) : peerPing f = peerPing g := by
  unfold Frame.Same at h
  split at h
  · rw [h]
  · obtain ⟨-, rfl⟩ := h
    cases g with
    | _ => rfl
  · cases h

theorem peerPings_same {gs fs : List (Frame (HeaderMap X))} (h : List.Forall₂ Frame.Same gs fs) :
    peerPings gs = peerPings fs := by
  induction h with
  | nil => rfl
  | cons hsame _ ih =>
      rw [peerPings, peerPings, List.flatMap_cons, List.flatMap_cons, peerPing_same hsame]
      exact congrArg _ ih

/-! ## PINGs come back -/

variable {io : TcpStream} {evs : List (Event (HeaderMap X))} {e : Served Z X}

/-- The frames that the peer reads begin with a SETTINGS frame, which is no PING. -/
theorem peerPings_settings (fs : List (Frame (HeaderMap X))) :
    peerPings (.settings initialSettings :: fs) = peerPings fs := rfl

/-- **PINGs come back in order.**  Of the PINGs with an odd id that the peer reads the ids
are the first of those that it has written itself: none is echoed twice, none before
another, and none that was not sent.  Both ways the frames fit the wire, and the header
blocks are among those that `decompressBlock` restores (`headersRestored_iff`). -/
theorem pings_echoed (sink : Bytes) (atEnd : IoErrorKind) {fs : List (Frame (HeaderMap X))}
    {source : Reader} {writer : Framer Z}
    (hwritten : writeFrames fs (Framer.new Z [] source) = .ok () writer)
    (hcut : io.reader.bytes <+: writer.writer) (hrange : ∀ f ∈ fs, f.InRange)
    (hlen : ∀ p ∈ withBlocks Z Z.start fs, (p.1.payload p.2).length < 2 ^ 24)
    (hzlib : BlocksRestored Z Z.start Z.newDecompress (rawBlocks fs))
    (h : (endpoint Z X io).Run FitsDeed evs e)
    (hlenBack : ∀ p ∈ withBlocks Z Z.start
      (Frame.settings initialSettings :: evs.flatMap Event.acceptedFrame),
      p.1.headers? ≠ none → (p.1.payload p.2).length < 2 ^ 24)
    (hzlibBack : BlocksRestored Z Z.start Z.newDecompress
      (rawBlocks (Frame.settings initialSettings :: evs.flatMap Event.acceptedFrame))) :
    ∃ written gs fr peer part, Heard io evs e
      (fun bytes => Framer.new Z sink ⟨bytes, atEnd⟩) written gs fr peer part ∧
      peerPings gs <+: peerPings fs := by
  obtain ⟨written, fr, part, hwrites⟩ := writes_run h
  obtain ⟨gs, peer, hheard⟩ :=
    heard_of_writes sink atEnd hwrites (accepted_writable h) hlenBack hzlibBack
  refine ⟨written, gs, fr, peer, part, hheard, ?_⟩
  obtain ⟨-, hframes⟩ := frames_received hwritten hcut hrange hlen hzlib
    (h.mono fun _ _ _ _ => trivial)
  have hwrote : peerPings written <+: peerPings (evs.flatMap Event.acceptedFrame) := by
    rw [← peerPings_settings]
    exact hheard.writes.inOrder.flatMap peerPing
  have hread : peerPings (evs.flatMap Event.frameRead) <+: peerPings fs := by
    rw [peerPings_same hframes]
    exact (List.take_prefix _ fs).flatMap peerPing
  calc peerPings gs = peerPings written := peerPings_same hheard.same
    _ <+: peerPings (evs.flatMap Event.acceptedFrame) := hwrote
    _ <+: peerPings (evs.flatMap Event.frameRead) := peerPings_inOrder (connection_reached h)
    _ <+: peerPings fs := hread

/-- A PING, a stream that asks for something, a second PING, and a third one behind a
GOAWAY. -/
def pingFrames : List (Frame (HeaderMap Http.reference)) :=
  [.ping ⟨7⟩, .synStream ⟨1, 0, 0, methodGet, 0⟩, .ping ⟨9⟩, .goAway ⟨0, .ok⟩, .ping ⟨11⟩]

/-- Their one header block is restored. -/
theorem pingFrames_blocks :
    BlocksRestored Zlib.reference Zlib.reference.start Zlib.reference.newDecompress
      (rawBlocks pingFrames) :=
  ⟨by decide +kernel, by decide +kernel, trivial⟩

/-- A transport that brings them. -/
def pingedStream : TcpStream := ⟨⟨(writerOf pingFrames).writer, .unexpectedEof⟩, ⟨[], none⟩⟩

theorem pinged_cut : pingedStream.reader.bytes <+: (writerOf pingFrames).writer := by
  simp only [pingedStream, List.prefix_refl]

/-- The first PING is echoed and the stream answered, when the second PING is still on its
way. -/
theorem pinged_run : ∃ evs e,
    (endpoint Zlib.reference Http.reference pingedStream).Run FitsDeed evs e ∧
    evs.flatMap Event.acceptedFrame = [.ping ⟨7⟩, .synReply ⟨1, methodGet, flagFin⟩] := by
  let inside : List (Action (HeaderMap Http.reference)) → List (Deed Http.reference) :=
    List.map Deed.inside
  obtain ⟨evs, e, h, hcheck⟩ := Machine.exists_run_of_exec
    (endpoint Zlib.reference Http.reference pingedStream) FitsDeed
    ([.readFrame] ++ inside [.readTask 0] ++ [.readFrame] ++
      inside (List.replicate 5 (.readTask 0)) ++
      inside [.workerRecv (workerIdx 1), .workerRun (workerIdx 1),
        .invoke 0 (.sendReply methodGet true)] ++
      inside (calls 0 4) ++ [.readFrame, .writeFrame, .writeFrame, .writeFrame])
    (fun evs _ => decide (evs.flatMap Event.acceptedFrame =
      [.ping ⟨7⟩, .synReply ⟨1, methodGet, flagFin⟩]))
    (by decide +kernel)
  exact ⟨evs, e, h, of_decide_eq_true hcheck⟩

/-- The peer reads the echo and the reply. -/
theorem pings_echoed_first : ∃ evs e,
    (endpoint Zlib.reference Http.reference pingedStream).Run FitsDeed evs e ∧
    evs.flatMap Event.acceptedFrame = [.ping ⟨7⟩, .synReply ⟨1, methodGet, flagFin⟩] ∧
    ∃ written gs fr peer part, Heard pingedStream evs e
      (fun bytes => Framer.new Zlib.reference [] ⟨bytes, .unexpectedEof⟩) written gs fr peer part ∧
      peerPings gs <+: peerPings pingFrames := by
  obtain ⟨evs, e, h, haccepted⟩ := pinged_run
  refine ⟨evs, e, h, haccepted, pings_echoed [] .unexpectedEof
    (writerOf_wrote pingFrames_blocks) pinged_cut (by decide +kernel) (by decide +kernel)
    pingFrames_blocks h ?_ ?_⟩
  · rw [haccepted]
    decide +kernel
  · rw [haccepted]
    exact ⟨by decide +kernel, by decide +kernel, trivial⟩

/-! ## To the end -/

/-- How many of the peer's frames have come in whole. -/
structure Arrived (Z : Zlib) (io : TcpStream) (fs : List (Frame (HeaderMap X))) (whole : Nat) :
    Prop where
  count : whole ≤ fs.length
  here : wireBytes Z Z.start (fs.take whole) <+: io.reader.bytes
  missing : whole < fs.length →
    io.reader.bytes.length < (wireBytes Z Z.start (fs.take (whole + 1))).length

/-- The end of an endpoint that has been sent some frames. -/
structure Serves (sink : Bytes) (atEnd : IoErrorKind) (io : TcpStream)
    (sent : List (Frame (HeaderMap X))) (evs : List (Event (HeaderMap X))) (e : Served Z X) :
    Prop where
  /-- it has read them, and no others -/
  read : List.Forall₂ Frame.Same (evs.flatMap Event.frameRead) sent
  workedOff : WorkedOff evs e.connection
  shutDown : ShutDown e.connection
  /-- unless a write has failed, the peer reads everything that was accepted, and among it
  the echoes of all its PINGs -/
  heard : e.connection.writeChannel.isOpen = true →
    (∀ p ∈ withBlocks Z Z.start
      (Frame.settings initialSettings :: evs.flatMap Event.acceptedFrame),
      p.1.headers? ≠ none → (p.1.payload p.2).length < 2 ^ 24) →
    BlocksRestored Z Z.start Z.newDecompress
      (rawBlocks (Frame.settings initialSettings :: evs.flatMap Event.acceptedFrame)) →
    ∃ gs peer, Heard io evs e (fun bytes => Framer.new Z sink ⟨bytes, atEnd⟩)
      (.settings initialSettings :: evs.flatMap Event.acceptedFrame) gs e.writeFramer peer [] ∧
      peerPings gs = peerPings sent

/-- What an endpoint does by itself fits. -/
theorem fits_of_isOwn {d : Deed X} (h : d.isOwn = true) : FitsDeed evs e d := by
  cases d with
  | inside a =>
      cases a with
      | read _ | invoke _ _ => cases h
      | _ => trivial
  | _ => trivial

theorem serves_of_ended (sink : Bytes) (atEnd : IoErrorKind) {gs fs : List (Frame (HeaderMap X))}
    (h : (endpoint Z X io).Run FitsDeed evs e)
    (hsettled : (endpoint Z X io).Settled Deed.isOwn e)
    (hreads : LoopReads X (Framer.new Z [] io.reader) gs .teardown)
    (hsame : List.Forall₂ Frame.Same gs fs) : Serves sink atEnd io fs evs e := by
  have hended := ended_of_settled (h.mono fun _ _ _ _ => trivial) hsettled
  obtain ⟨hread, hdown⟩ : evs.flatMap Event.frameRead = gs ∧ ShutDown e.connection := by
    rcases hended.reads with ⟨hloop, hdown⟩ | ⟨hloop, -⟩
    · exact ⟨(hloop.unique hreads).1, hdown⟩
    · cases (hloop.unique hreads).2
  subst hread
  refine ⟨hsame, hended.workedOff, hdown, fun hopen hlen hzlib => ?_⟩
  obtain ⟨written, fr, part, hwrites⟩ := writes_run h
  obtain ⟨rfl, rfl, hall⟩ := hwrites.whole hopen
  rw [hended.atRest.written, List.append_nil] at hall
  subst hall
  obtain ⟨hs, peer, hheard⟩ :=
    heard_of_writes sink atEnd hwrites (accepted_writable h) hlen hzlib
  refine ⟨hs, peer, hheard, ?_⟩
  calc peerPings hs = peerPings (.settings initialSettings :: evs.flatMap Event.acceptedFrame) :=
        peerPings_same hheard.same
    _ = peerPings (evs.flatMap Event.frameRead) :=
        peerPings_settled (connection_reached h) (connection_settled hsettled) hopen
    _ = peerPings fs := peerPings_same hsame

/-- **An endpoint serves its peer to the end.**  Of the frames that the peer has written, cut
off anywhere, the endpoint comes to have read those that have come in whole, up to the first
GOAWAY; then it is shut down, everything it has read is worked off, and everything it has
accepted, with the echo of every PING, is there for the peer to read.  Both ways the frames
fit the wire, and the header blocks are among those that `decompressBlock` restores
(`headersRestored_iff`). -/
theorem endpoint_serves (sink : Bytes) (atEnd : IoErrorKind) {fs : List (Frame (HeaderMap X))}
    {source : Reader} {writer : Framer Z}
    (hwritten : writeFrames fs (Framer.new Z [] source) = .ok () writer)
    (hcut : io.reader.bytes <+: writer.writer) (hrange : ∀ f ∈ fs, f.InRange)
    (hlen : ∀ p ∈ withBlocks Z Z.start fs, (p.1.payload p.2).length < 2 ^ 24)
    (hzlib : BlocksRestored Z Z.start Z.newDecompress (rawBlocks fs))
    (h : (endpoint Z X io).Run FitsDeed evs e) :
    ∃ whole, Arrived Z io fs whole ∧ (endpoint Z X io).Comes Deed.isOwn
      (fun evs e => (endpoint Z X io).Run FitsDeed evs e ∧
        Serves sink atEnd io (untilGoAway (fs.take whole)) evs e) evs e := by
  obtain ⟨c, hc⟩ := writeFrames_run fs (Framer.new Z [] source) _ rfl hzlib
  cases hwritten.symm.trans hc
  obtain ⟨whole, gs, final, hread⟩ :=
    readFrames_cut_run fs (Framer.new Z [] io.reader) _ _ io.reader.bytes rfl hrange hlen hzlib hcut
  obtain ⟨fr', hend⟩ := hread.ends
  have hcount : gs.length = whole := by
    rw [hread.same.length_eq, List.length_take_of_le hread.count]
  have hloop : LoopReads X (Framer.new Z [] io.reader) (untilGoAway gs) .teardown :=
    loopReads_untilGoAway (.fails hend) gs _ (by rw [hcount]; exact hread.read)
  refine ⟨whole, ⟨hread.count, ⟨_, hread.bytes⟩, hread.missing⟩, ?_⟩
  refine (endpoint_decreases.comes (J := (endpoint Z X io).Run FitsDeed)
    (fun _ _ _ _ _ hrun hown hs => hrun.step (fits_of_isOwn hown) hs) h).mono ?_
  intro evs e hboth
  exact ⟨hboth.1,
    serves_of_ended sink atEnd hboth.1 hboth.2 hloop (untilGoAway_same hread.same)⟩

/-- The endpoint that has echoed one PING comes to echo the other, and shuts down. -/
theorem endpoint_serves_pings : ∃ evs e,
    (endpoint Zlib.reference Http.reference pingedStream).Run FitsDeed evs e ∧
    evs.flatMap Event.acceptedFrame = [.ping ⟨7⟩, .synReply ⟨1, methodGet, flagFin⟩] ∧
    ∃ whole, Arrived Zlib.reference pingedStream pingFrames whole ∧
      (endpoint Zlib.reference Http.reference pingedStream).Comes Deed.isOwn
        (fun evs e => (endpoint Zlib.reference Http.reference pingedStream).Run FitsDeed evs e ∧
          Serves [] .unexpectedEof pingedStream (untilGoAway (pingFrames.take whole)) evs e)
        evs e := by
  obtain ⟨evs, e, h, haccepted⟩ := pinged_run
  exact ⟨evs, e, h, haccepted, endpoint_serves [] .unexpectedEof
    (writerOf_wrote pingFrames_blocks) pinged_cut (by decide +kernel) (by decide +kernel)
    pingFrames_blocks h⟩

end SpdyStream.Wire
