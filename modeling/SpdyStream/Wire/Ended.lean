/-
  Wire/Ended.lean --- an endpoint comes to its end.

  With everything that the peer will send on the transport, `read_frame` is one more step
  that an endpoint takes by itself.  A frame read brings new work, but takes its bytes off
  the front: so the bytes to read, and then what the connection has left to do, get smaller
  with every own step (`endpoint_decreases`).  Whatever the bytes are and in whatever order
  the tasks run, they come to where the loop of the read task has ended, as `readLoop` does
  on these bytes, and everything that was read is worked off.
-/
import SpdyStream.Framing.ReadLoop
import SpdyStream.Session.ShutDown
import SpdyStream.Wire.Inbound
import SpdyStream.Wire.Outbound

set_option autoImplicit false

namespace SpdyStream.Wire

open SpdyStream.Foundation
open SpdyStream.Framing
open SpdyStream.Session
open SpdyStream.Upgrade

variable {Z : Zlib} {X : Http} {H : Type}

/-! ## The loop of the read task -/

/-- The frames that the loop of the read task takes from a framer, and how it ends. -/
inductive LoopReads (X : Http) : Framer Z → List (Frame (HeaderMap X)) → LoopEnd → Prop where
  | goAway {fr fr' : Framer Z} {g : GoAwayFrame} :
      Framing.readFrame X fr = .ok (.goAway g) fr' → LoopReads X fr [.goAway g] .teardown
  | next {fr fr' : Framer Z} {f : Frame (HeaderMap X)} {fs : List (Frame (HeaderMap X))}
      {out : LoopEnd} : Framing.readFrame X fr = .ok f fr' → (∀ g, f ≠ .goAway g) →
      LoopReads X fr' fs out → LoopReads X fr (f :: fs) out
  | fails {fr fr' : Framer Z} {err : Error} :
      Framing.readFrame X fr = .error (.error err) fr' → LoopReads X fr [] .teardown
  | panics {fr fr' : Framer Z} :
      Framing.readFrame X fr = .error .panic fr' → LoopReads X fr [] .dead

/-- `readLoop` ends with one more round than it has read frames. -/
theorem LoopReads.loop {fr : Framer Z} {fs : List (Frame (HeaderMap X))} {out : LoopEnd}
    (h : LoopReads X fr fs out) : readLoop X (fs.length + 1) fr = some out := by
  induction h with
  | goAway hread => simp [readLoop, hread]
  | @next fr fr' f fs out hread hgo _ ih =>
      rw [List.length_cons, readLoop, hread]
      cases f with
      | goAway g => exact absurd rfl (hgo g)
      | _ => exact ih
  | fails hread => simp [readLoop, hread]
  | panics hread => simp [readLoop, hread]

/-- Behind frames that are no GOAWAY the loop goes on. -/
theorem LoopReads.behind {last : Framer Z} {hs : List (Frame (HeaderMap X))} {out : LoopEnd}
    (hlast : LoopReads X last hs out) (gs : List (Frame (HeaderMap X))) :
    ∀ fr : Framer Z, readFrames X gs.length fr = .ok gs last → (∀ f ∈ gs, ∀ g, f ≠ .goAway g) →
      LoopReads X fr (gs ++ hs) out := by
  induction gs with
  | nil =>
      intro fr hread _
      cases hread
      exact hlast
  | cons f gs ih =>
      intro fr hread hgo
      obtain ⟨f', fr₁, hfirst, hread⟩ := FramerM.bind_eq_ok.mp hread
      obtain ⟨gs', fr₂, hrest, hread⟩ := FramerM.bind_eq_ok.mp hread
      cases hread
      obtain ⟨hf, hgs⟩ := List.forall_mem_cons.mp hgo
      exact .next hfirst hf (ih fr₁ hrest hgs)

/-- How the loop of the read task has ended, if it has. -/
def loopEnd : ReadTask H → Option LoopEnd
  | .storeGoneAway | .goAwayClose | .lockStreams | .sweep _ | .finalClose | .finished =>
      some .teardown
  | .dead => some .dead
  | _ => none

theorem loopEnd_dispatch {f : Frame H} (h : ∀ g, f ≠ .goAway g) : loopEnd (dispatch f) = none := by
  cases f with
  | goAway g => exact absurd rfl (h g)
  | synStream g =>
      simp only [dispatch]
      split
      · rfl
      · rfl
  | ping p =>
      simp only [dispatch]
      split
      · rfl
      · rfl
  | _ => rfl

theorem loopEnd_missing (f : Frame H) : loopEnd (missing f) = none := by
  cases f with
  | _ => rfl

/-- The read task by itself neither ends its loop nor goes back to it. -/
theorem readTask_loopEnd {s s' : State H} {pick : Nat} {es : List (Event H)}
    (h : s.readStep pick = some (s', es)) : loopEnd s'.readTask = loopEnd s.readTask := by
  cases task_step h with
  | routes holds move =>
      cases move with
      | plain _ before _ _ _ => cases holds.symm.trans before
      | answer _ _ _ pc _ _ => cases holds.symm.trans (ReadTask.holdsFrame_of_answer pc)
      | missed f pc _ =>
          rw [pc]
          exact loopEnd_missing f
      | stale _ pc _ | checked _ pc _ | refused _ pc _ | passed _ pc _ | taken _ pc _
      | accept _ pc _ | publish _ _ pc | found _ _ pc _ | deliver _ _ pc _ =>
          rw [pc]
          rfl
  | inUse _ pc send | responds _ pc send =>
      obtain ⟨⟨s₁, es₁⟩, -, hr⟩ := Option.map_eq_some_iff.mp send
      cases hr
      rw [pc]
      rfl
  | resolves id' pc =>
      obtain ⟨pingMap, pings, heq⟩ := signalPing_eq s id' .fired
      rw [heq, pc]
      rfl
  | goesAway pc | closes pc | locks pc | sweeps _ _ pc _ | swept pc | ends pc =>
      rw [pc]
      rfl

/-- Only `read_frame` ends the loop. -/
theorem step_loopEnd {s s' : State H} {a : Action H} {es : List (Event H)}
    (hs : s.step a = some (s', es)) (hread : ∀ f, a ≠ .read f)
    (hends : a ≠ .readFail ∧ a ≠ .readPanic) : loopEnd s'.readTask = loopEnd s.readTask := by
  have hworker : ∀ {i : Fin nWorkers}, WorkerMove s i s' es →
      loopEnd s'.readTask = loopEnd s.readTask := fun hmove => by rw [hmove.readTask]
  cases a with
  | read f => exact absurd rfl (hread f)
  | readFail => exact absurd rfl hends.1
  | readPanic => exact absurd rfl hends.2
  | readTask pick => exact readTask_loopEnd hs
  | workerRecv i => exact hworker (workerRecv_move hs)
  | workerRun i => exact hworker (workerRun_move hs)
  | _ => rw [(aside_step rfl hs).aside.readTask]

theorem readEnds_step {s s' : State H} {next : ReadTask H} {es : List (Event H)}
    (h : s.readEnds next = some (s', es)) : s.readTask = .reading ∧ s'.readTask = next := by
  unfold State.readEnds at h
  split at h
  · rename_i hpc
    cases h
    exact ⟨hpc, rfl⟩
  · cases h

theorem readFrame_step {s s' : State H} {f : Frame H} {es : List (Event H)}
    (h : s.readFrame f = some (s', es)) : s.readTask = .reading ∧ s'.readTask = dispatch f := by
  unfold State.readFrame at h
  split at h
  · rename_i hpc
    cases h
    exact ⟨hpc, rfl⟩
  · cases h

/-! ## How far the loop has come -/

variable {io : TcpStream} {guard : List (Event (HeaderMap X)) → Served Z X → Deed X → Prop}
  {evs : List (Event (HeaderMap X))} {e : Served Z X}

/-- What the read task has read of its loop. -/
structure Looped (io : TcpStream) (evs : List (Event (HeaderMap X))) (e : Served Z X) : Prop where
  /-- as long as the loop runs it has read frames that are no GOAWAY -/
  runs : loopEnd e.connection.readTask = none →
    readFrames X (evs.flatMap Event.frameRead).length (Framer.new Z [] io.reader) =
        .ok (evs.flatMap Event.frameRead) e.readFramer ∧
      ∀ f ∈ evs.flatMap Event.frameRead, ∀ g, f ≠ .goAway g
  /-- when it has ended it has read all that it takes -/
  ended : ∀ out, loopEnd e.connection.readTask = some out →
    LoopReads X (Framer.new Z [] io.reader) (evs.flatMap Event.frameRead) out

/-- A step that reads nothing. -/
theorem Looped.other {es : List (Event (HeaderMap X))} {e' : Served Z X} (h : Looped io evs e)
    (hmute : es.flatMap Event.frameRead = [])
    (hend : loopEnd e'.connection.readTask = loopEnd e.connection.readTask)
    (hreader : e'.readFramer = e.readFramer) : Looped io (evs ++ es) e' := by
  refine ⟨fun hrun => ?_, fun out hout => ?_⟩
  · rw [List.flatMap_append, hmute, List.append_nil, hreader]
    exact h.runs (hend.symm.trans hrun)
  · rw [List.flatMap_append, hmute, List.append_nil]
    exact h.ended out (hend.symm.trans hout)

/-- An error of `read_frame` ends the loop, and so does a panic. -/
theorem readEnds_reads {e e' : Served Z X} {fault : Fault} {a : Action (HeaderMap X)}
    {es : List (Event (HeaderMap X))}
    (action : a = .readFail ∧ (∃ err, fault = .error err) ∨ a = .readPanic ∧ fault = .panic)
    (read : Framing.readFrame X e.readFramer = .error fault e'.readFramer)
    (connection : e.connection.step a = some (e'.connection, es)) :
    e.connection.readTask = .reading ∧ es.flatMap Event.frameRead = [] ∧
      ∃ out, loopEnd e'.connection.readTask = some out ∧ LoopReads X e.readFramer [] out := by
  rcases action with ⟨rfl, err, rfl⟩ | ⟨rfl, rfl⟩
  · obtain ⟨hpc, hnext⟩ := readEnds_step connection
    exact ⟨hpc, frameRead_other (by simp) connection, .teardown, by rw [hnext]; rfl, .fails read⟩
  · obtain ⟨hpc, hnext⟩ := readEnds_step connection
    exact ⟨hpc, frameRead_other (by simp) connection, .dead, by rw [hnext]; rfl, .panics read⟩

theorem looped_run (h : (endpoint Z X io).Run guard evs e) : Looped io evs e := by
  refine h.invariant (I := Looped io) ?_ ?_
  · refine ⟨fun _ => ⟨rfl, ?_⟩, ?_⟩
    · intro f hf
      cases hf
    · intro out hout
      cases hout
  · intro evs es e e' d _ _ hs hloop
    cases deed_move hs with
    | reads f read connection _ =>
        obtain ⟨hpc, hnext⟩ := readFrame_step connection
        obtain ⟨hgs, hgo⟩ := hloop.runs (by rw [hpc]; rfl)
        obtain ⟨-, hone⟩ := read_step connection
        by_cases hlast : ∃ g, f = .goAway g
        · obtain ⟨g, rfl⟩ := hlast
          refine ⟨fun hrun => ?_, fun out hout => ?_⟩
          · rw [hnext] at hrun
            cases hrun
          · rw [hnext] at hout
            cases hout
            rw [List.flatMap_append, hone]
            exact LoopReads.behind (.goAway read) _ _ hgs hgo
        · have hother : ∀ g, f ≠ .goAway g := fun g hg => hlast ⟨g, hg⟩
          have hrun : loopEnd e'.connection.readTask = none := by
            rw [hnext]
            exact loopEnd_dispatch hother
          refine ⟨fun _ => ?_, fun out hout => by cases hrun.symm.trans hout⟩
          rw [List.flatMap_append, hone, List.length_append]
          refine ⟨readFrames_snoc read _ _ hgs, fun f' hf' => ?_⟩
          rcases List.mem_append.mp hf' with hold | hnew
          · exact hgo f' hold
          · cases List.mem_singleton.mp hnew
            exact hother
    | readEnds fault a action read connection _ =>
        obtain ⟨hpc, hmute, out, hend, hlast⟩ := readEnds_reads action read connection
        obtain ⟨hgs, hgo⟩ := hloop.runs (by rw [hpc]; rfl)
        refine ⟨fun hrun => (by cases hrun.symm.trans hend), fun out' hout => ?_⟩
        cases hend.symm.trans hout
        have hall := hlast.behind _ _ hgs hgo
        rwa [List.append_nil, ← List.append_nil (evs.flatMap Event.frameRead), ← hmute,
          ← List.flatMap_append] at hall
    | writes f _ _ connection readFramer =>
        exact hloop.other (frameRead_other (by simp) connection)
          (step_loopEnd connection (by simp) (by simp)) readFramer
    | writeEnds f part _ _ connection readFramer =>
        exact hloop.other (frameRead_other (by simp) connection)
          (step_loopEnd connection (by simp) (by simp)) readFramer
    | inside a _ untouched connection readFramer _ =>
        have hread : ∀ f, a ≠ .read f := by
          rintro f rfl
          cases untouched
        refine hloop.other (frameRead_other hread connection) (step_loopEnd connection hread ?_)
          readFramer
        constructor
        · rintro rfl
          cases untouched
        · rintro rfl
          cases untouched

/-! ## What is left to do -/

/-- An endpoint takes the step by itself: the bytes of the peer are there, and what is
written goes out. -/
def Deed.isOwn : Deed X → Bool
  | .readFrame | .writeFrame => true
  | .writeError _ => false
  | .inside a => a.isOwn

/-- What is left of the loop of the read task. -/
def toRead (e : Served Z X) : Nat :=
  match loopEnd e.connection.readTask with
  | none => e.readFramer.reader.bytes.length + 1
  | some _ => 0

/-- What is left to read, and then what is left to do. -/
def measure (e : Served Z X) : Nat ×ₗ Nat ×ₗ Nat := toLex (toRead e, e.connection.measure)

theorem measure_of_less {e e' : Served Z X} (h : toRead e' < toRead e) : measure e' < measure e :=
  Prod.Lex.toLex_lt_toLex.mpr (.inl h)

theorem measure_of_same {e e' : Served Z X} (hread : toRead e' = toRead e)
    (h : e'.connection.measure < e.connection.measure) : measure e' < measure e :=
  Prod.Lex.toLex_lt_toLex.mpr (.inr ⟨hread, h⟩)

theorem toRead_congr {e e' : Served Z X}
    (hend : loopEnd e'.connection.readTask = loopEnd e.connection.readTask)
    (hreader : e'.readFramer = e.readFramer) : toRead e' = toRead e := by
  rw [toRead, toRead, hend, hreader]

theorem toRead_of_ended {e : Served Z X} {out : LoopEnd}
    (h : loopEnd e.connection.readTask = some out) : toRead e = 0 := by
  rw [toRead, h]

theorem toRead_of_reading {e : Served Z X} (h : e.connection.readTask = .reading) :
    toRead e = e.readFramer.reader.bytes.length + 1 := by
  rw [toRead, h]
  rfl

/-- A frame that is read has taken its bytes off the front. -/
theorem toRead_of_read {e e' : Served Z X} {f : Frame (HeaderMap X)}
    (hpc : e.connection.readTask = .reading)
    (hread : Framing.readFrame X e.readFramer = .ok f e'.readFramer) : toRead e' < toRead e := by
  have htakes := readFrame_takes hread
  rw [toRead_of_reading hpc, toRead]
  split
  · omega
  · omega

/-- A write that fails empties the channel. -/
theorem writeFail_measure {s s' : State H} {es : List (Event H)}
    (hqueue : s.writeChannel.queue ≠ []) (h : s.step .writeFail = some (s', es)) :
    s'.measure < s.measure := by
  cases h
  have hpos := List.length_pos_of_ne_nil hqueue
  refine measure_of_rest rfl rfl rfl rfl rfl ?_
  simp only [List.length_nil]
  omega

/-- Every own step leaves less to read, or less to do. -/
theorem endpoint_decreases : (endpoint Z X io).Decreases Deed.isOwn measure := by
  intro e d e' es hown hs
  cases deed_move hs with
  | reads f read connection _ =>
      exact measure_of_less (toRead_of_read (readFrame_step connection).1 read)
  | readEnds fault a action read connection _ =>
      obtain ⟨hpc, -, out, hend, -⟩ := readEnds_reads action read connection
      refine measure_of_less ?_
      rw [toRead_of_ended hend, toRead_of_reading hpc]
      exact Nat.succ_pos _
  | writes f _ _ connection readFramer =>
      exact measure_of_same
        (toRead_congr (step_loopEnd connection (by simp) (by simp)) readFramer)
        (write_measure connection)
  | writeEnds f part next _ connection readFramer =>
      refine measure_of_same
        (toRead_congr (step_loopEnd connection (by simp) (by simp)) readFramer)
        (writeFail_measure ?_ connection)
      intro hempty
      have hhead := (nextFrame_eq next).2
      rw [hempty] at hhead
      cases hhead
  | inside a deed untouched connection readFramer _ =>
      subst deed
      have hless : e'.connection.measure < e.connection.measure :=
        own_decreases e.connection a _ _ hown connection
      refine measure_of_same (toRead_congr (step_loopEnd connection ?_ ?_) readFramer) hless
      · rintro f rfl
        cases untouched
      · constructor
        · rintro rfl
          cases untouched
        · rintro rfl
          cases untouched

/-! ## The end -/

theorem connectionStep_none {e : Served Z X} {a : Action (HeaderMap X)}
    (h : connectionStep e a = none) : e.connection.step a = none :=
  Option.map_eq_none_iff.mp h

/-- Where an endpoint has no own step to take its connection has none. -/
theorem connection_settled (h : (endpoint Z X io).Settled Deed.isOwn e) :
    (connection (HeaderMap X)).Settled Action.isOwn e.connection := by
  intro a hown
  have hinside : isInside a = true → e.connection.step a = none := by
    intro ha
    have hnone : step e (.inside a) = none := h (.inside a) hown
    rw [step, if_pos ha] at hnone
    exact connectionStep_none hnone
  cases a with
  | write =>
      have hnone : writeNext e = none := h .writeFrame rfl
      unfold writeNext at hnone
      split at hnone
      · rename_i hnext
        show e.connection.write = none
        unfold nextFrame at hnext
        unfold State.write
        split at hnext
        · rw [List.head?_eq_none_iff.mp hnext]
        · rename_i hclosed
          split
          · rfl
          · rw [if_neg hclosed]
      · split at hnone
        · rename_i f hnext _ _ fr hwrite
          obtain ⟨hopen, hhead⟩ := nextFrame_eq hnext
          obtain ⟨rest, hqueue⟩ := List.head?_eq_some_iff.mp hhead
          have hstep : e.connection.write = none := connectionStep_none hnone
          simp [State.write, hqueue, hopen] at hstep
        · cases hnone
  | read _ | readFail | readPanic | writeFail => cases hown
  | _ => exact hinside rfl

/-- Nor is it in the loop of the read task. -/
theorem not_reading (h : (endpoint Z X io).Settled Deed.isOwn e) :
    e.connection.readTask ≠ .reading := by
  intro hpc
  have hnone : step e .readFrame = none := h .readFrame rfl
  simp only [step] at hnone
  split at hnone
  · have hstep := connectionStep_none hnone
    simp [State.step, State.readFrame, hpc] at hstep
  · have hstep := connectionStep_none hnone
    simp [State.step, State.readEnds, hpc] at hstep
  · have hstep := connectionStep_none hnone
    simp [State.step, State.readEnds, hpc] at hstep

/-- The end of an endpoint. -/
structure Ended (io : TcpStream) (evs : List (Event (HeaderMap X))) (e : Served Z X) : Prop where
  /-- everything that the loop of the read task takes from the bytes has been read, and the
  read task is where the loop leaves it -/
  reads : LoopReads X (Framer.new Z [] io.reader) (evs.flatMap Event.frameRead) .teardown ∧
      ShutDown e.connection ∨
    LoopReads X (Framer.new Z [] io.reader) (evs.flatMap Event.frameRead) .dead ∧
      e.connection.readTask = .dead
  /-- no task has anything left to do -/
  atRest : AtRest e.connection
  /-- all of what was read has been dealt with -/
  workedOff : WorkedOff evs e.connection
  /-- all of what was accepted has been written, unless a write has failed -/
  written : e.connection.writeChannel.isOpen = true →
    writeFrames (.settings initialSettings :: evs.flatMap Event.acceptedFrame)
      (Framer.new Z io.writer.bytes ⟨[], .unexpectedEof⟩) = .ok () e.writeFramer

theorem ended_of_settled (h : (endpoint Z X io).Reached evs e)
    (hsettled : (endpoint Z X io).Settled Deed.isOwn e) : Ended io evs e := by
  have hreached := connection_reached h
  have hconnection := connection_settled hsettled
  have hrest := (settled_iff hreached).mp hconnection
  refine ⟨?_, hrest, workedOff_atRest hreached hrest, fun hopen => ?_⟩
  · rcases hrest.readTask with hpc | hpc | hpc
    · exact absurd hpc (not_reading hsettled)
    · refine .inl ⟨(looped_run h).ended _ (by rw [hpc]; rfl), ?_⟩
      exact shutDown_of_atRest hreached hrest (by rw [hpc]; rfl)
    · exact .inr ⟨(looped_run h).ended _ (by rw [hpc]; rfl), hpc⟩
  · obtain ⟨written, fr, part, hwrites⟩ := writes_run h
    obtain ⟨hframer, -, hqueue⟩ := hwrites.whole hopen
    rw [hrest.written, List.append_nil] at hqueue
    rw [← hqueue, hframer]
    exact hwrites.write

/-- **An endpoint comes to its end.**  Whatever bytes there are on the transport, and in
whatever order the tasks of the endpoint take their steps, the loop of the read task ends as
`readLoop` does on these bytes; all that it has read gets to the streams and all answers are
written; and then, unless reading has panicked, the connection is shut down. -/
theorem endpoint_ends (h : (endpoint Z X io).Reached evs e) :
    (endpoint Z X io).Comes Deed.isOwn
      (fun evs e => (endpoint Z X io).Reached evs e ∧ Ended io evs e) evs e :=
  (endpoint_decreases.comes (J := (endpoint Z X io).Reached)
    (fun _ _ _ _ _ hrun _ hs => hrun.step trivial hs) h).mono fun _ _ hboth =>
      ⟨hboth.1, ended_of_settled hboth.1 hboth.2⟩

/-- A transport that brings a new stream, and then three bytes of something else. -/
def brokenStream : TcpStream :=
  { openedStream with
    reader := ⟨openedStream.reader.bytes ++ [0x16, 3, 1], .unexpectedEof⟩ }

/-- The handler of the stream waits for data, and a PING for its echo, when the bytes end. -/
theorem endpoint_ends_broken : ∃ evs e,
    (endpoint Zlib.reference Http.reference brokenStream).Reached evs e ∧
    e.connection.pcOf 0 0 = some .readSelect ∧ e.connection.pings = [.wait 2 .waiting] ∧
    (endpoint Zlib.reference Http.reference brokenStream).Comes Deed.isOwn
      (fun evs e => (endpoint Zlib.reference Http.reference brokenStream).Reached evs e ∧
        Ended brokenStream evs e) evs e := by
  let inside : List (Action (HeaderMap Http.reference)) → List (Deed Http.reference) :=
    List.map Deed.inside
  obtain ⟨evs, e, h, hcheck⟩ := Machine.exists_run_of_exec
    (endpoint Zlib.reference Http.reference brokenStream) Machine.free
    ([.readFrame] ++ inside (List.replicate 5 (.readTask 0)) ++
      inside [.workerRecv (workerIdx 1), .workerRun (workerIdx 1), .invoke 0 .readData] ++
      inside (calls 0 3) ++ inside [.ping, .pingStep 0, .pingStep 0, .pingStep 0])
    (fun _ e => decide (e.connection.pcOf 0 0 = some .readSelect ∧
      e.connection.pings = [.wait 2 .waiting]))
    (by decide +kernel)
  obtain ⟨hreader, hping⟩ := of_decide_eq_true hcheck
  exact ⟨evs, e, h, hreader, hping, endpoint_ends h⟩

end SpdyStream.Wire
