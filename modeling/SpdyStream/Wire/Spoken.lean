/-
  Wire/Spoken.lean --- from the writes of a handler to the bytes that the peer reads.

  `CallOrder.lean` goes from the calls of a handler to the frames that are accepted, and
  `Outbound.lean` from these to the frames that the peer reads.  Together they say what a
  stream is for: the peer reads the bytes that the handler has written, in order.
-/
import SpdyStream.Session.CallOrder
import SpdyStream.Wire.Outbound

set_option autoImplicit false

namespace SpdyStream.Wire

open SpdyStream.Foundation
open SpdyStream.Framing
open SpdyStream.Session
open SpdyStream.Upgrade

variable {Z : Zlib} {X : Http}

/-! ## Runs of the connection inside -/

variable {io : TcpStream} {guard : List (Event (HeaderMap X)) → Served Z X → Deed X → Prop}
  {evs : List (Event (HeaderMap X))} {e : Served Z X} {o : Nat}

/-- A condition on what does not touch the transport is one on the connection. -/
theorem connection_run
    {inner : List (Event (HeaderMap X)) → State (HeaderMap X) → Action (HeaderMap X) → Prop}
    (hinside : ∀ evs e a, guard evs e (.inside a) → inner evs e.connection a)
    (houtside : ∀ evs s a, isInside a = false → inner evs s a)
    (h : (endpoint Z X io).Run guard evs e) :
    (connection (HeaderMap X)).Run inner evs e.connection := by
  induction h with
  | start => exact .start
  | @step evs es e e' d _ hguard hs ih =>
      cases deed_move hs with
      | reads f _ connection _ => exact ih.step (houtside _ _ (.read f) rfl) connection
      | readEnds fault a action _ connection _ =>
          refine ih.step (houtside _ _ a ?_) connection
          rcases action with ⟨rfl, -⟩ | ⟨rfl, -⟩
          · rfl
          · rfl
      | writes _ _ _ connection _ => exact ih.step (houtside _ _ .write rfl) connection
      | writeEnds _ _ _ _ connection _ => exact ih.step (houtside _ _ .writeFail rfl) connection
      | inside a deed _ connection _ _ =>
          subst deed
          exact ih.step (hinside _ _ _ hguard) connection

/-- Handlers make requests that fit, and on stream `o` one after the other. -/
def SpeaksInTurn (o : Nat) (evs : List (Event (HeaderMap X))) (e : Served Z X) (d : Deed X) :
    Prop :=
  FitsDeed evs e d ∧
    match d with
    | .inside a => InTurn o evs e.connection a
    | _ => True

/-! ## Payloads -/

theorem flatten_framePayload {H : Type} (f : Frame H) : (framePayload f).flatten = dataBytes f := by
  cases f with
  | data df => exact List.append_nil _
  | _ => rfl

/-- The bytes for a stream that the channel has accepted. -/
theorem payloadsTo_accepted {H : Type} (k : UInt32) (evs : List (Event H)) :
    (payloadsTo k (evs.flatMap Event.acceptedFrame)).flatten =
      (evs.flatMap (Event.sentOn k)).flatMap dataBytes := by
  induction evs with
  | nil => rfl
  | cons ev evs ih =>
      have hone : (payloadsTo k ev.acceptedFrame).flatten =
          (Event.sentOn k ev).flatMap dataBytes := by
        cases ev with
        | enqueued src f =>
            simp only [Event.acceptedFrame, payloadsTo, Event.sentOn, List.flatMap_singleton]
            split
            · rw [flatten_framePayload, List.flatMap_singleton]
            · rfl
        | _ => rfl
      rw [List.flatMap_cons, List.flatMap_cons, List.flatMap_append, ← hone, ← ih]
      rw [payloadsTo, payloadsTo, payloadsTo, List.flatMap_append, List.flatten_append]

theorem payloadsTo_isPrefix {H : Type} (k : UInt32) {fs gs : List (Frame H)} (h : fs <+: gs) :
    (payloadsTo k fs).flatten <+: (payloadsTo k gs).flatten :=
  (h.flatMap _).flatten

/-! ## From the handler to the peer -/

/-- What the peer reads of what the handler of stream `o` has written. -/
structure Spoken (o : Nat) (k : UInt32) (evs : List (Event (HeaderMap X))) (e : Served Z X)
    (gs : List (Frame (HeaderMap X))) : Prop where
  /-- in order, without gap or repetition -/
  inOrder : (payloadsTo k gs).flatten <+:
    (List.range e.connection.calls.length).flatMap (e.connection.writtenBy o evs)
  /-- and all of it, where the write task runs and has written everything -/
  whole : e.connection.writeChannel.isOpen = true → e.connection.writeChannel.queue = [] →
    (payloadsTo k gs).flatten =
      (List.range e.connection.calls.length).flatMap (e.connection.writtenBy o evs)

/-- **From the handler to the peer.**  If the handler of a stream makes one call after the
other, then the DATA that the peer reads for this stream is, byte for byte and in order,
what the handler's successful writes were given, and never more; and it is all of this once
everything is written.  Of the blocks of the replies it is assumed that they fit a payload
and that the peer's `decompressBlock` restores them (`headersRestored_iff`). -/
theorem handler_spoken (sink : Bytes) (atEnd : IoErrorKind)
    (h : (endpoint Z X io).Run (SpeaksInTurn o) evs e) {k : UInt32}
    (hk : e.connection.ids[o]? = some k)
    (hlen : ∀ p ∈ withBlocks Z Z.start
      (Frame.settings initialSettings :: evs.flatMap Event.acceptedFrame),
      p.1.headers? ≠ none → (p.1.payload p.2).length < 2 ^ 24)
    (hzlib : BlocksRestored Z Z.start Z.newDecompress
      (rawBlocks (Frame.settings initialSettings :: evs.flatMap Event.acceptedFrame))) :
    ∃ written gs fr peer part, Heard io evs e
      (fun bytes => Framer.new Z sink ⟨bytes, atEnd⟩) written gs fr peer part ∧
      Spoken o k evs e gs := by
  obtain ⟨written, fr, part, hwrites⟩ := writes_run h
  have hfits : (endpoint Z X io).Run FitsDeed evs e := h.mono fun _ _ _ hboth => hboth.1
  obtain ⟨gs, peer, hheard⟩ :=
    heard_of_writes sink atEnd hwrites (accepted_writable hfits) hlen hzlib
  refine ⟨written, gs, fr, peer, part, hheard, ?_⟩
  have hinTurn : (connection (HeaderMap X)).Run (InTurn o) evs e.connection := by
    refine connection_run (fun _ _ _ hboth => hboth.2) (fun evs s a ha => ?_) h
    cases a with
    | invoke _ _ => cases ha
    | _ => rfl
  have hbytes : (payloadsTo k (Frame.settings initialSettings ::
      evs.flatMap Event.acceptedFrame)).flatten =
      (List.range e.connection.calls.length).flatMap (e.connection.writtenBy o evs) := by
    have hnone : (if (Frame.settings initialSettings : Frame (HeaderMap X)).target = k
        then framePayload (Frame.settings initialSettings : Frame (HeaderMap X)) else []) = [] :=
      ite_self []
    rw [← bytes_run hinTurn hk, ← payloadsTo_accepted, payloadsTo, List.flatMap_cons, hnone]
    rfl
  have hsame := payloadsTo_same k hheard.same
  refine ⟨?_, fun hopen hqueue => ?_⟩
  · rw [hsame, ← hbytes]
    exact payloadsTo_isPrefix k hwrites.inOrder
  · obtain ⟨-, -, hall⟩ := hwrites.whole hopen
    rw [hqueue, List.append_nil] at hall
    rw [hsame, hall, hbytes]

instance (o : Nat) (evs : List (Event (HeaderMap X))) (e : Served Z X) :
    (d : Deed X) → Decidable (SpeaksInTurn o evs e d)
  | .inside a => inferInstanceAs (Decidable (FitsAction a ∧ InTurn o evs e.connection a))
  | .readFrame | .writeFrame | .writeError _ => inferInstanceAs (Decidable (True ∧ True))

/-- A handler replies and writes two bytes, and the transport fails after the first. -/
theorem handler_spoken_cut : ∃ evs e k gs,
    (endpoint Zlib.reference Http.reference openedStream).Run (SpeaksInTurn 0) evs e ∧
    (List.range e.connection.calls.length).flatMap (e.connection.writtenBy 0 evs) = [7, 9] ∧
    Spoken 0 k evs e gs := by
  let inside : List (Action (HeaderMap Http.reference)) → List (Deed Http.reference) :=
    List.map Deed.inside
  obtain ⟨evs, e, h, hcheck⟩ := Machine.exists_run_of_exec
    (endpoint Zlib.reference Http.reference openedStream) (SpeaksInTurn 0)
    ([.readFrame] ++ inside (List.replicate 5 (.readTask 0)) ++
      inside [.workerRecv (workerIdx 1), .workerRun (workerIdx 1)] ++
      inside [.invoke 0 (.sendReply methodGet false)] ++ inside (calls 0 3) ++
      inside [.invoke 0 (.pollWrite [7])] ++ inside (calls 1 1) ++
      inside [.invoke 0 (.pollWrite [9])] ++ inside (calls 2 1) ++
      [.writeFrame, .writeFrame, .writeFrame, .writeError 3])
    (fun evs e => decide (e.connection.ids[0]? = some 1 ∧ evs.flatMap Event.acceptedFrame =
      [.synReply ⟨1, methodGet, 0⟩, .data ⟨1, 0, [7]⟩, .data ⟨1, 0, [9]⟩] ∧
      (List.range e.connection.calls.length).flatMap (e.connection.writtenBy 0 evs) = [7, 9]))
    (by decide +kernel)
  obtain ⟨hid, haccepted, hbytes⟩ := of_decide_eq_true hcheck
  obtain ⟨_, gs, _, _, _, -, hspoken⟩ := handler_spoken [] .unexpectedEof h hid
    (by
      rw [haccepted]
      decide +kernel)
    (by
      rw [haccepted]
      exact ⟨by decide +kernel, by decide +kernel, trivial⟩)
  exact ⟨evs, e, 1, gs, h, hbytes, hspoken⟩

end SpdyStream.Wire
