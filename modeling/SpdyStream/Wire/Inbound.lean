/-
  Wire/Inbound.lean --- from the bytes of the peer to the payloads that a handler reads.

  The frames that the read task reads are what `read_frame` makes of the bytes, one after
  another (`reads_decoded`).  Where the peer wrote the bytes with a framer, they are its
  frames, as far as they have come; and of these the payloads of one stream reach its
  handler in order, though a full channel may drop some.
-/
import SpdyStream.Session.Delivery
import SpdyStream.Session.Echo
import SpdyStream.Wire.Endpoint

set_option autoImplicit false

namespace SpdyStream.Wire

open SpdyStream.Foundation
open SpdyStream.Framing
open SpdyStream.Session
open SpdyStream.Upgrade

variable {Z : Zlib} {X : Http}

/-! ## What is read -/

/-- Behind an error of `read_frame` the loop is left. -/
theorem readEnds_left {s s' : State (HeaderMap X)} {a : Action (HeaderMap X)}
    {es : List (Event (HeaderMap X))} (ha : a = .readFail ∨ a = .readPanic)
    (h : s.step a = some (s', es)) : s'.readTask.inLoop = false := by
  rcases ha with rfl | rfl
  all_goals
    simp only [State.step, State.readEnds] at h
    split at h
    · cases h
      rfl
    · cases h

variable {io : TcpStream} {guard : List (Event (HeaderMap X)) → Served Z X → Deed X → Prop}
  {evs : List (Event (HeaderMap X))} {e : Served Z X}

/-- What has been read is what the bytes decode to, one frame after another. -/
theorem reads_decoded (h : (endpoint Z X io).Run guard evs e) :
    ∃ fr, readFrames X (evs.flatMap Event.frameRead).length (Framer.new Z [] io.reader) =
        .ok (evs.flatMap Event.frameRead) fr ∧
      (e.connection.readTask.inLoop = true → e.readFramer = fr) := by
  refine h.invariant (I := fun evs e => ∃ fr,
    readFrames X (evs.flatMap Event.frameRead).length (Framer.new Z [] io.reader) =
        .ok (evs.flatMap Event.frameRead) fr ∧
      (e.connection.readTask.inLoop = true → e.readFramer = fr)) ?_ ?_
  · exact ⟨Framer.new Z [] io.reader, rfl, fun _ => rfl⟩
  · rintro evs es e e' d hrun - hs ⟨fr, hread, hreader⟩
    rw [List.flatMap_append]
    -- A step that reads nothing, and leaves the framer unless it ends the loop.
    have hother : ∀ {a : Action (HeaderMap X)}, e.connection.step a = some (e'.connection, es) →
        (∀ f, a ≠ .read f) →
        (e'.connection.readTask.inLoop = true → e'.readFramer = e.readFramer) →
        ∃ fr', readFrames X (evs.flatMap Event.frameRead ++ es.flatMap Event.frameRead).length
            (Framer.new Z [] io.reader) =
            .ok (evs.flatMap Event.frameRead ++ es.flatMap Event.frameRead) fr' ∧
          (e'.connection.readTask.inLoop = true → e'.readFramer = fr') := by
      intro a hstep ha hkeeps
      rw [frameRead_other ha hstep, List.append_nil]
      refine ⟨fr, hread, fun hloop => ?_⟩
      rw [hkeeps hloop]
      exact hreader (closed_step (workers_sound (connection_reached hrun)) hstep hloop 0).1
    cases deed_move hs with
    | reads f read connection _ =>
        obtain ⟨hpc, hone⟩ := read_step connection
        have hframer := hreader (by rw [hpc]; rfl)
        rw [hframer] at read
        rw [hone, List.length_append]
        exact ⟨e'.readFramer, readFrames_snoc read _ _ hread, fun _ => rfl⟩
    | readEnds fault a action read connection _ =>
        have hends := readEnds_left (action.imp And.left And.left) connection
        refine hother connection ?_ fun hloop => by cases hends.symm.trans hloop
        rcases action with ⟨rfl, -⟩ | ⟨rfl, -⟩
        · simp
        · simp
    | writes f _ _ connection readFramer => exact hother connection (by simp) fun _ => readFramer
    | writeEnds f part _ _ connection readFramer =>
        exact hother connection (by simp) fun _ => readFramer
    | inside a _ untouched connection readFramer _ =>
        refine hother connection ?_ fun _ => readFramer
        rintro f rfl
        cases untouched

/-! ## What is delivered -/

/-- Frames that agree but for the order of their headers bring the same payload to the
same stream. -/
theorem payload_same {f g : Frame (HeaderMap X)} (h : f.Same g) :
    f.target = g.target ∧ framePayload f = framePayload g := by
  have hwith : ∀ m : HeaderMap X, (g.withHeaders m).target = g.target ∧
      framePayload (g.withHeaders m) = framePayload g := by
    intro m
    cases g with
    | _ => exact ⟨rfl, rfl⟩
  unfold Frame.Same at h
  split at h
  · rw [h]
    exact ⟨rfl, rfl⟩
  · rw [h.2]
    exact hwith _
  · cases h

theorem payloadsTo_same (streamId : UInt32) {gs fs : List (Frame (HeaderMap X))}
    (h : List.Forall₂ Frame.Same gs fs) : payloadsTo streamId gs = payloadsTo streamId fs := by
  induction h with
  | nil => rfl
  | cons hsame _ ih =>
      obtain ⟨htarget, hpayload⟩ := payload_same hsame
      rw [payloadsTo, payloadsTo, List.flatMap_cons, List.flatMap_cons, htarget, hpayload]
      exact congrArg _ ih

/-- What an endpoint makes of the frames that its peer has written. -/
structure Receives (fs : List (Frame (HeaderMap X))) (evs : List (Event (HeaderMap X))) :
    Prop where
  /-- it has read the first of them, and nothing else -/
  count : (evs.flatMap Event.frameRead).length ≤ fs.length
  frames : List.Forall₂ Frame.Same (evs.flatMap Event.frameRead)
    (fs.take (evs.flatMap Event.frameRead).length)
  /-- what a handler has read of its stream are payloads for this stream, in order -/
  payloads : ∀ {o : Nat} {f₀ : SynStreamFrame (HeaderMap X)}, .accepted o f₀ ∈ evs →
    (evs.flatMap (Event.deliveredFrom o)).Sublist (payloadsTo f₀.streamId fs)

theorem routableRead_sublist (evs : List (Event (HeaderMap X))) :
    (evs.flatMap Event.routableRead).Sublist (evs.flatMap Event.frameRead) := by
  refine List.Sublist.flatMap_right evs fun ev _ => ?_
  cases ev with
  | read f =>
      simp only [Event.routableRead, Event.frameRead]
      split
      · exact .refl _
      · exact List.nil_sublist _
  | _ => exact List.nil_sublist _

/-- Of the frames that the peer has written, cut off anywhere, an endpoint reads the first. -/
theorem frames_received {fs : List (Frame (HeaderMap X))} {source : Reader} {peer : Framer Z}
    (hwritten : writeFrames fs (Framer.new Z [] source) = .ok () peer)
    (hcut : io.reader.bytes <+: peer.writer) (hrange : ∀ f ∈ fs, f.InRange)
    (hlen : ∀ p ∈ withBlocks Z Z.start fs, (p.1.payload p.2).length < 2 ^ 24)
    (hzlib : BlocksRestored Z Z.start Z.newDecompress (rawBlocks fs))
    (h : (endpoint Z X io).Reached evs e) :
    (evs.flatMap Event.frameRead).length ≤ fs.length ∧
      List.Forall₂ Frame.Same (evs.flatMap Event.frameRead)
        (fs.take (evs.flatMap Event.frameRead).length) := by
  obtain ⟨c, hc⟩ := writeFrames_run fs (Framer.new Z [] source) _ rfl hzlib
  cases hwritten.symm.trans hc
  obtain ⟨whole, gs, final, hread⟩ :=
    readFrames_cut_run fs (Framer.new Z [] io.reader) _ _ io.reader.bytes rfl hrange hlen hzlib hcut
  obtain ⟨fr', hend⟩ := hread.ends
  obtain ⟨fr, hdecoded, -⟩ := reads_decoded h
  obtain ⟨hle, hfirst⟩ := readFrames_atMost hend whole _ _ _ _ _ hread.read hdecoded
  have hgs := List.forall₂_take (evs.flatMap Event.frameRead).length hread.same
  rw [← hfirst, List.take_take, Nat.min_eq_left hle] at hgs
  exact ⟨hle.trans hread.count, hgs⟩

/-- Where these frames are read, the handlers read their payloads. -/
theorem receives_of_frames (h : (endpoint Z X io).Reached evs e)
    {fs : List (Frame (HeaderMap X))}
    (hframes : (evs.flatMap Event.frameRead).length ≤ fs.length ∧
      List.Forall₂ Frame.Same (evs.flatMap Event.frameRead)
        (fs.take (evs.flatMap Event.frameRead).length)) : Receives fs evs := by
  refine ⟨hframes.1, hframes.2, fun he => ?_⟩
  refine (delivered_sublist (connection_reached h) he).trans ?_
  refine (payloadsTo_sublist _ (routableRead_sublist evs)).trans ?_
  rw [payloadsTo_same _ hframes.2]
  exact payloadsTo_sublist _ (List.take_sublist _ _)

/-- **From the wire to the handlers.**  Where the bytes are those of frames that the peer
has written, cut off anywhere, an endpoint reads the first of these frames, and each handler
reads payloads of its own stream, in order and none of them twice.  It is assumed that the
endpoint's `decompressBlock` restores each header block, which its loop does not do for all
(`headersRestored_iff`). -/
theorem endpoint_receives {fs : List (Frame (HeaderMap X))} {source : Reader} {peer : Framer Z}
    (hwritten : writeFrames fs (Framer.new Z [] source) = .ok () peer)
    (hcut : io.reader.bytes <+: peer.writer) (hrange : ∀ f ∈ fs, f.InRange)
    (hlen : ∀ p ∈ withBlocks Z Z.start fs, (p.1.payload p.2).length < 2 ^ 24)
    (hzlib : BlocksRestored Z Z.start Z.newDecompress (rawBlocks fs))
    (h : (endpoint Z X io).Reached evs e) : Receives fs evs :=
  receives_of_frames h (frames_received hwritten hcut hrange hlen hzlib h)

/-- A stream is opened, and one payload is sent on it. -/
def peerFrames : List (Frame (HeaderMap Http.reference)) :=
  [.synStream ⟨1, 0, 0, HeaderMap.new _, 0⟩, .data ⟨1, 0, [0x68, 0x69]⟩]

/-- A handler reads the payload. -/
theorem endpoint_receives_hi : ∃ evs e,
    (endpoint Zlib.reference Http.reference
      ⟨⟨(writerOf peerFrames).writer, .unexpectedEof⟩, ⟨[], none⟩⟩).Reached evs e ∧
    evs.flatMap (Event.deliveredFrom 0) = [[0x68, 0x69]] ∧ Receives peerFrames evs := by
  let inside : List (Action (HeaderMap Http.reference)) → List (Deed Http.reference) :=
    List.map Deed.inside
  obtain ⟨evs, e, h, hcheck⟩ := Machine.exists_run_of_exec
    (endpoint Zlib.reference Http.reference
      ⟨⟨(writerOf peerFrames).writer, .unexpectedEof⟩, ⟨[], none⟩⟩)
    Machine.free
    ([.readFrame] ++ inside (List.replicate 5 (.readTask 0)) ++
      inside [.workerRecv (workerIdx 1), .workerRun (workerIdx 1)] ++ [.readFrame] ++
      inside (List.replicate 2 (.readTask 0)) ++
      inside [.workerRecv (workerIdx 1), .workerRun (workerIdx 1), .invoke 0 .readData] ++
      inside (calls 0 2))
    (fun evs _ => decide (evs.flatMap (Event.deliveredFrom 0) = [[0x68, 0x69]]))
    (by decide +kernel)
  exact ⟨evs, e, h, of_decide_eq_true hcheck,
    endpoint_receives rfl (List.prefix_refl _) (by decide +kernel) (by decide +kernel)
      ⟨by decide +kernel, by decide +kernel, trivial⟩ h⟩

end SpdyStream.Wire
