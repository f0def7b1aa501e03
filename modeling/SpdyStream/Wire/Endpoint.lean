/-
  Wire/Endpoint.lean --- a connection on its transport.

  `serve` leaves a connection and two framers: the read task calls `read_frame` on one,
  the write task `write_frame` on the other.  A step of the endpoint is a step of the
  connection in which the frame read, or what becomes of the frame written, is what the
  framer makes of the bytes.

  The bytes that the peer will send are there from the start.  When they arrive is left
  open: a `read_frame` that returns is one step, and any other steps may come before it.
-/
import SpdyStream.Framing.Truncated
import SpdyStream.Session.WriteOrder
import SpdyStream.Upgrade.Server

set_option autoImplicit false

namespace SpdyStream.Wire

open SpdyStream.Foundation
open SpdyStream.Framing
open SpdyStream.Session
open SpdyStream.Upgrade

variable {Z : Zlib} {X : Http}

/-! ## The machine -/

/-- What happens next at an endpoint. -/
inductive Deed (X : Http) where
  /-- `read_frame` ends -/
  | readFrame
  /-- the write task takes a frame, and `write_frame` ends -/
  | writeFrame
  /-- the write task takes a frame, and the transport fails behind `n` bytes of it -/
  | writeError (n : Nat)
  /-- something that does not touch the transport -/
  | inside (a : Action (HeaderMap X))

/-- The action does not touch the transport. -/
def isInside : Action (HeaderMap X) → Bool
  | .read _ | .readFail | .readPanic | .write | .writeFail => false
  | .readTask _ | .workerRecv _ | .workerRun _ | .invoke _ _ | .call _ _ | .cancel _ | .close
  | .closeStep _ | .closeTimeout _ | .ping | .pingStep _ | .pingTimeout _ => true

/-- The frame that the write task takes next. -/
def nextFrame (c : Channel (HeaderMap X)) : Option (Frame (HeaderMap X)) :=
  if c.isOpen then c.queue.head? else none

/-- The connection of an endpoint takes a step. -/
def connectionStep (e : Served Z X) (a : Action (HeaderMap X)) :
    Option (Served Z X × List (Event (HeaderMap X))) :=
  (e.connection.step a).map fun r => ({ e with connection := r.1 }, r.2)

/-- `write_frame` on the frame that comes next. -/
def writeNext (e : Served Z X) : Option (Served Z X × List (Event (HeaderMap X))) :=
  match nextFrame e.connection.writeChannel with
  | none => none
  | some f =>
      match Framing.writeFrame f e.writeFramer with
      | .ok _ fr => connectionStep { e with writeFramer := fr } .write
      | .error _ fr => connectionStep { e with writeFramer := fr } .writeFail

/-- `write_frame` on the frame that comes next, where the transport takes `n` more bytes and
fails. -/
def writePart (e : Served Z X) (n : Nat) : Option (Served Z X × List (Event (HeaderMap X))) :=
  match nextFrame e.connection.writeChannel with
  | none => none
  | some f =>
      match Framing.writeFrame f { e.writeFramer with room := some n } with
      | .ok _ _ => none
      | .error _ fr => connectionStep { e with writeFramer := fr } .writeFail

/-- One step of an endpoint. -/
def step (e : Served Z X) : Deed X → Option (Served Z X × List (Event (HeaderMap X)))
  | .readFrame =>
      match Framing.readFrame X e.readFramer with
      | .ok f fr => connectionStep { e with readFramer := fr } (.read f)
      | .error (.error _) fr => connectionStep { e with readFramer := fr } .readFail
      | .error .panic fr => connectionStep { e with readFramer := fr } .readPanic
  | .writeFrame => writeNext e
  | .writeError n => writePart e n
  | .inside a => if isInside a then connectionStep e a else none

/-- The endpoint that `serve` sets up on a transport. -/
def endpoint (Z : Zlib) (X : Http) (io : TcpStream) :
    Machine (Served Z X) (Deed X) (Event (HeaderMap X)) where
  start := serve Z X io
  step := step

/-! ## What a step does -/

/-- What a step of an endpoint comes to. -/
inductive DeedMove (e : Served Z X) (d : Deed X) (e' : Served Z X)
    (es : List (Event (HeaderMap X))) : Prop where
  | reads (f : Frame (HeaderMap X))
      (read : Framing.readFrame X e.readFramer = .ok f e'.readFramer)
      (connection : e.connection.step (.read f) = some (e'.connection, es))
      (writeFramer : e'.writeFramer = e.writeFramer)
  | readEnds (fault : Fault) (a : Action (HeaderMap X))
      (action : a = .readFail ∧ (∃ err, fault = .error err) ∨ a = .readPanic ∧ fault = .panic)
      (read : Framing.readFrame X e.readFramer = .error fault e'.readFramer)
      (connection : e.connection.step a = some (e'.connection, es))
      (writeFramer : e'.writeFramer = e.writeFramer)
  | writes (f : Frame (HeaderMap X)) (next : nextFrame e.connection.writeChannel = some f)
      (write : Framing.writeFrame f e.writeFramer = .ok () e'.writeFramer)
      (connection : e.connection.step .write = some (e'.connection, es))
      (readFramer : e'.readFramer = e.readFramer)
  /-- a part of the frame may have gone out -/
  | writeEnds (f : Frame (HeaderMap X)) (part : Bytes)
      (next : nextFrame e.connection.writeChannel = some f)
      (bytes : e'.writeFramer.writer = e.writeFramer.writer ++ part)
      (connection : e.connection.step .writeFail = some (e'.connection, es))
      (readFramer : e'.readFramer = e.readFramer)
  | inside (a : Action (HeaderMap X)) (deed : d = .inside a) (untouched : isInside a = true)
      (connection : e.connection.step a = some (e'.connection, es))
      (readFramer : e'.readFramer = e.readFramer) (writeFramer : e'.writeFramer = e.writeFramer)

theorem nextFrame_eq {c : Channel (HeaderMap X)} {f : Frame (HeaderMap X)}
    (h : nextFrame c = some f) : c.isOpen = true ∧ c.queue.head? = some f := by
  unfold nextFrame at h
  split at h
  · rename_i hopen
    exact ⟨hopen, h⟩
  · cases h

theorem connectionStep_eq {e e' : Served Z X} {a : Action (HeaderMap X)}
    {es : List (Event (HeaderMap X))} (h : connectionStep e a = some (e', es)) :
    e.connection.step a = some (e'.connection, es) ∧ e'.readFramer = e.readFramer ∧
      e'.writeFramer = e.writeFramer := by
  obtain ⟨⟨s, es₁⟩, hstep, hr⟩ := Option.map_eq_some_iff.mp h
  cases hr
  exact ⟨hstep, rfl, rfl⟩

/-- `write_frame` only adds to what is written. -/
theorem writeFrame_adds (f : Frame (HeaderMap X)) (fr : Framer Z) :
    (∃ fr', Framing.writeFrame f fr = .ok () fr' ∧ fr.writer <+: fr'.writer) ∨
    ∃ fault fr' part, Framing.writeFrame f fr = .error fault fr' ∧
      fr'.writer = fr.writer ++ part := by
  cases hblock : f.block? fr with
  | none =>
      obtain ⟨e, fr', hwrite, hwriter⟩ := writeFrame_fails hblock
      exact .inr ⟨e, fr', [], hwrite, hwriter.trans (List.append_nil _).symm⟩
  | some block =>
      rcases writeFrame_writes hblock with
        ⟨-, fr', hwrite, hwriter⟩ | ⟨n, -, -, e, fr', hwrite, hwriter⟩
      · exact .inl ⟨fr', hwrite, _, hwriter.symm⟩
      · exact .inr ⟨e, fr', _, hwrite, hwriter⟩

theorem deed_move {e e' : Served Z X} {d : Deed X} {es : List (Event (HeaderMap X))}
    (h : step e d = some (e', es)) : DeedMove e d e' es := by
  cases d with
  | readFrame =>
      simp only [step] at h
      split at h
      · rename_i f fr hread
        obtain ⟨hstep, rfl, hwriter⟩ := connectionStep_eq h
        exact .reads f hread hstep hwriter
      · rename_i err fr hread
        obtain ⟨hstep, rfl, hwriter⟩ := connectionStep_eq h
        exact .readEnds _ _ (.inl ⟨rfl, err, rfl⟩) hread hstep hwriter
      · rename_i fr hread
        obtain ⟨hstep, rfl, hwriter⟩ := connectionStep_eq h
        exact .readEnds _ _ (.inr ⟨rfl, rfl⟩) hread hstep hwriter
  | writeFrame =>
      simp only [step, writeNext] at h
      split at h
      · cases h
      · rename_i f hnext
        rcases writeFrame_adds f e.writeFramer with ⟨fr, hwrite, -⟩ | ⟨_, fr, part, hwrite, hwriter⟩
        · rw [hwrite] at h
          obtain ⟨hstep, hreader, rfl⟩ := connectionStep_eq h
          exact .writes f hnext hwrite hstep hreader
        · rw [hwrite] at h
          obtain ⟨hstep, hreader, rfl⟩ := connectionStep_eq h
          exact .writeEnds f part hnext hwriter hstep hreader
  | writeError n =>
      simp only [step, writePart] at h
      split at h
      · cases h
      · rename_i f hnext
        rcases writeFrame_adds f { e.writeFramer with room := some n } with
          ⟨fr, hwrite, -⟩ | ⟨_, fr, part, hwrite, hwriter⟩
        · rw [hwrite] at h
          cases h
        · rw [hwrite] at h
          obtain ⟨hstep, hreader, rfl⟩ := connectionStep_eq h
          exact .writeEnds f part hnext hwriter hstep hreader
  | inside a =>
      simp only [step] at h
      split at h
      · rename_i ha
        obtain ⟨hstep, hreader, hwriter⟩ := connectionStep_eq h
        exact .inside a rfl ha hstep hreader hwriter
      · cases h

/-- Every step of an endpoint is one of its connection. -/
theorem DeedMove.connection {e e' : Served Z X} {d : Deed X} {es : List (Event (HeaderMap X))}
    (h : DeedMove e d e' es) : ∃ a, e.connection.step a = some (e'.connection, es) := by
  cases h with
  | reads _ _ connection _ | readEnds _ _ _ _ connection _ | writes _ _ _ connection _
  | writeEnds _ _ _ _ connection _ | inside _ _ _ connection _ _ => exact ⟨_, connection⟩

variable {io : TcpStream} {guard : List (Event (HeaderMap X)) → Served Z X → Deed X → Prop}
  {evs : List (Event (HeaderMap X))} {e : Served Z X}

/-- **An endpoint is a connection.**  What holds in every run of the connection holds in
every run of an endpoint. -/
theorem connection_reached (h : (endpoint Z X io).Run guard evs e) :
    (connection (HeaderMap X)).Reached evs e.connection := by
  induction h with
  | start => exact .start
  | step _ _ hs ih =>
      obtain ⟨a, hstep⟩ := (deed_move hs).connection
      exact ih.step trivial hstep

end SpdyStream.Wire
