/-
  Wire/Outbound.lean --- from the frames of a connection to what its peer reads.

  The write task writes the frames that the channel has accepted, in order, and perhaps a
  part of one more.  All of them can be written: their ids are ids that were read, and
  their headers and payloads those of a handler.  So the peer reads what was written.
-/
import SpdyStream.Framing.Received
import SpdyStream.Session.GoAway
import SpdyStream.Wire.Inbound

set_option autoImplicit false

namespace SpdyStream.Wire

open SpdyStream.Foundation
open SpdyStream.Framing
open SpdyStream.Session
open SpdyStream.Upgrade

variable {Z : Zlib} {X : Http}

/-! ## What can be written -/

/-- What a handler sends fits a frame. -/
def FitsRequest : Request (HeaderMap X) → Prop
  | .sendReply headers _ => headers.InRange
  | .writeData data _ => data.length < 2 ^ 24
  | .pollWrite buf => buf.length < 2 ^ 24
  | .pollShutdown | .reset _ | .readData => True

/-- What a call has still to send fits a frame. -/
def FitsCall : CallPc (HeaderMap X) → Prop
  | .replySend headers _ => headers.InRange
  | .writeLoad data _ | .writeNotified data _ | .writeReload data _ _ | .writeWait data _ _
  | .writeCheckFin data _ | .writeStoreFin data | .writeSend data _ | .pollSend data =>
      data.length < 2 ^ 24
  | _ => True

theorem fitsCall_entry {r : Request (HeaderMap X)} (h : FitsRequest r) : FitsCall r.entry := by
  cases r with
  | sendReply headers fin => exact h
  | writeData data fin => exact h
  | pollWrite buf => exact h
  | pollShutdown | reset status | readData => trivial

/-- The frame that the read task has in hand. -/
def frameInHand : ReadTask (HeaderMap X) → Option (Frame (HeaderMap X))
  | .loadLast f | .loadGoneAway f | .register f | .inUse f | .storeLast f _ => some (.synStream f)
  | .lookup f | .forward _ f | .respond f => some f
  | _ => none

/-- Whatever a connection may send fits a frame. -/
structure Sendable (s : State (HeaderMap X)) : Prop where
  ids : ∀ k ∈ s.ids, k.toNat < 2 ^ 31
  last : s.lastClientStreamId.toNat < 2 ^ 31
  task : ∀ f, frameInHand s.readTask = some f → f.Writable
  calls : ∀ c ∈ s.calls, FitsCall c.pc
  closes : ∀ lastGood, .sendGoAway lastGood ∈ s.closes → lastGood.toNat < 2 ^ 31

/-- Frames that fit are read, and requests that fit are made. -/
def FitsAction : Action (HeaderMap X) → Prop
  | .read f => f.Writable
  | .invoke _ r => FitsRequest r
  | _ => True

theorem writable_rstStream {streamId : UInt32} (h : streamId.toNat < 2 ^ 31) (status : RstStatus) :
    (Frame.rstStream ⟨streamId, status⟩ : Frame (HeaderMap X)).Writable := by
  refine ⟨h, fun _ => ?_⟩
  show (rstStreamPayload ⟨streamId, status⟩).length < _
  simp [rstStreamPayload]

theorem writable_ping (id : UInt32) : (Frame.ping ⟨id⟩ : Frame (HeaderMap X)).Writable := by
  refine ⟨trivial, fun _ => ?_⟩
  show (toBeBytes32 id).length < _
  simp

theorem writable_goAway {g : GoAwayFrame} (h : g.lastGoodStreamId.toNat < 2 ^ 31) :
    (Frame.goAway g : Frame (HeaderMap X)).Writable := by
  refine ⟨h, fun _ => ?_⟩
  show (goAwayPayload g).length < _
  simp [goAwayPayload]

theorem writable_initialSettings :
    (Frame.settings initialSettings : Frame (HeaderMap X)).Writable := by
  have hids : ∀ s ∈ initialSettings.settings, s.id.toNat < 2 ^ 24 := by decide
  have hlen : (settingsPayload initialSettings).length < 2 ^ 24 := by decide
  exact ⟨hids, fun _ => hlen⟩

theorem writable_data {streamId : UInt32} (h : streamId.toNat < 2 ^ 31) (flags : UInt8)
    {data : Bytes} (hdata : data.length < 2 ^ 24) :
    (Frame.data ⟨streamId, flags, data⟩ : Frame (HeaderMap X)).Writable :=
  ⟨h, fun _ => hdata⟩

theorem streamId_lt {f : SynStreamFrame (HeaderMap X)} (h : (Frame.synStream f).Writable) :
    f.streamId.toNat < 2 ^ 31 :=
  h.inRange.1

/-- What a call sends can be written. -/
theorem writable_of_sends {pc : CallPc (HeaderMap X)} {st : Stream (HeaderMap X)}
    {f : Frame (HeaderMap X)} (hid : st.streamId.toNat < 2 ^ 31) (hpc : FitsCall pc)
    (h : pc.sends st = some f) : f.Writable := by
  cases pc with
  | replySend headers fin =>
      cases h
      exact ⟨⟨hid, hpc⟩, fun hnone => by cases hnone⟩
  | writeSend data fin | pollSend data =>
      cases h
      exact writable_data hid _ hpc
  | shutdownSend =>
      cases h
      exact writable_data hid _ (by decide)
  | resetSend status =>
      cases h
      exact writable_rstStream hid status
  | _ => cases h

/-- A call has no more to send than before. -/
theorem fitsCall_step {alt : Bool} {pc : CallPc (HeaderMap X)} {st : Stream (HeaderMap X)}
    {c : Channel (HeaderMap X)} {out : CallOutcome (HeaderMap X)} (hpc : FitsCall pc)
    (h : callStep alt pc st c = some out) : FitsCall out.pc := by
  have hsend : ∀ {f : Frame (HeaderMap X)} {next : CallPc (HeaderMap X)}, FitsCall next →
      sendThen c st f next = some out → FitsCall out.pc := by
    intro f next hnext hsend
    rcases sendThen_cases hsend with ⟨-, rfl⟩ | ⟨-, -, -, hpc'⟩
    · trivial
    · rw [hpc']
      exact hnext
  have htry : ∀ (blocked : Bool) (f : Frame (HeaderMap X)) (next : CallPc (HeaderMap X)),
      FitsCall next → FitsCall (tryThen blocked c st f next).pc := by
    intro blocked f next hnext
    rcases tryThen_cases blocked c st f next with ⟨r, heq⟩ | ⟨-, -, -, hpc'⟩
    · rw [heq]
      trivial
    · rw [hpc']
      exact hnext
  cases call_step h with
  | replySend _ fin send =>
      have hnext : FitsCall (.replyStoreReplied fin : CallPc (HeaderMap X)) := trivial
      exact hsend hnext send
  | writeSend _ _ send | resetSend _ send =>
      have hnext : FitsCall (.returned .ok : CallPc (HeaderMap X)) := trivial
      exact hsend hnext send
  | pollSend _ | shutdownSend => exact htry _ _ _ trivial
  | loadsReplied | loadsUnreplied | notified | reloadsReplied | reloadsUnreplied | wakes
  | checkFin | checkPlain | claimsFin => exact hpc
  | _ => trivial

/-! ## One step -/

theorem Sendable.id_of_get {s : State (HeaderMap X)} (h : Sendable s) {o : Nat}
    {st : Stream (HeaderMap X)} (hst : s.objs[o]? = some st) : st.streamId.toNat < 2 ^ 31 :=
  h.ids _ (List.mem_map_of_mem (List.mem_of_getElem? hst))

/-- A step that leaves everything that may be sent. -/
theorem Sendable.congr {s s' : State (HeaderMap X)} (h : Sendable s) (hids : s'.ids = s.ids)
    (hlast : s'.lastClientStreamId = s.lastClientStreamId)
    (htask : ∀ f, frameInHand s'.readTask = some f → f.Writable) (hcalls : s'.calls = s.calls)
    (hcloses : s'.closes = s.closes) : Sendable s' where
  ids := by
    rw [hids]
    exact h.ids
  last := by
    rw [hlast]
    exact h.last
  task := htask
  calls := by
    rw [hcalls]
    exact h.calls
  closes := by
    rw [hcloses]
    exact h.closes

/-- The frames that a read task answers with, or takes up from a frame that was read. -/
theorem writable_dispatch {f g : Frame (HeaderMap X)} (hf : f.Writable)
    (h : frameInHand (dispatch f) = some g) : g.Writable := by
  cases f with
  | synStream f =>
      simp only [dispatch] at h
      split at h
      · cases h
        exact writable_rstStream (streamId_lt hf) _
      · cases h
        exact hf
  | ping p =>
      simp only [dispatch] at h
      split at h
      · cases h
        exact hf
      · cases h
  | data _ | synReply _ | rstStream _ | headers _ =>
      cases h
      exact hf
  | goAway _ | settings _ | windowUpdate _ => cases h

theorem writable_missing {f g : Frame (HeaderMap X)} (hf : f.Writable)
    (h : frameInHand (missing f) = some g) : g.Writable := by
  cases f with
  | data df =>
      cases h
      exact writable_rstStream hf.inRange _
  | _ => cases h

theorem frameInHand_none {t : ReadTask (HeaderMap X)} (hplain : t.isPlain = true)
    (hmute : t.answer = none) : frameInHand t = none := by
  cases t with
  | loadLast _ | loadGoneAway _ | register _ | inUse _ | storeLast _ _ | lookup _ | forward _ _ =>
      cases hplain
  | respond _ => cases hmute
  | _ => rfl

theorem writable_answer {t : ReadTask (HeaderMap X)} {f : Frame (HeaderMap X)}
    (hall : ∀ g, frameInHand t = some g → g.Writable) (h : t.answer = some f) : f.Writable := by
  cases t with
  | respond g =>
      cases h
      exact hall f rfl
  | inUse g =>
      cases h
      exact writable_rstStream (streamId_lt (hall _ rfl)) _
  | _ => cases h

/-- What a step leaves to be sent, and what it sends. -/
def StepFits (s' : State (HeaderMap X)) (es : List (Event (HeaderMap X))) : Prop :=
  Sendable s' ∧ ∀ f ∈ es.flatMap Event.acceptedFrame, f.Writable

theorem readMove_fits {s s' : State (HeaderMap X)} {es : List (Event (HeaderMap X))}
    (h : Sendable s) (hmove : ReadMove s s' es) : StepFits s' es := by
  have hhand : ∀ {t : ReadTask (HeaderMap X)} {f : Frame (HeaderMap X)}, s.readTask = t →
      frameInHand t = some f → f.Writable := fun hpc hf => h.task _ (hpc ▸ hf)
  have hone : ∀ {f g : Frame (HeaderMap X)}, f.Writable → some f = some g → g.Writable :=
    fun hf hg => Option.some.inj hg ▸ hf
  cases hmove with
  | plain still before next loop mute =>
      refine ⟨h.congr still.ids still.last (fun f hf => ?_) still.calls still.closes, by simp⟩
      cases (frameInHand_none next mute.2).symm.trans hf
  | answer f c es pc channel events =>
      refine ⟨h.congr rfl rfl (fun g hg => by cases hg) rfl rfl, fun g hg => ?_⟩
      rcases events with ⟨rfl, -⟩ | rfl
      · cases hg
      · cases List.mem_singleton.mp hg
        exact writable_answer h.task pc
  | stale f pc le | refused f pc gone =>
      have hf := streamId_lt (hhand pc rfl)
      exact ⟨h.congr rfl rfl (fun g => hone (writable_rstStream hf _)) rfl rfl, by
        simp [Event.acceptedFrame]⟩
  | checked f pc lt | passed f pc here =>
      exact ⟨h.congr rfl rfl (fun g => hone (hhand pc rfl)) rfl rfl, by simp⟩
  | taken f pc mem =>
      exact ⟨h.congr rfl rfl (fun g => hone (hhand pc rfl)) rfl rfl, by
        simp [Event.acceptedFrame]⟩
  | accept f pc notMem =>
      refine ⟨⟨fun k hk => ?_, h.last, fun g => hone (hhand pc rfl), h.calls, h.closes⟩, by
        simp [Event.acceptedFrame]⟩
      rw [State.ids, List.map_append, List.mem_append] at hk
      rcases hk with hk | hk
      · exact h.ids k hk
      · cases List.mem_singleton.mp hk
        exact streamId_lt (hhand pc rfl)
  | publish f o pc =>
      exact ⟨⟨h.ids, streamId_lt (hhand pc rfl), fun g => hone (hhand pc rfl), h.calls, h.closes⟩,
        by simp⟩
  | found f o pc hit =>
      exact ⟨h.congr rfl rfl (fun g => hone (hhand pc rfl)) rfl rfl, by
        simp [Event.acceptedFrame]⟩
  | missed f pc miss =>
      exact ⟨h.congr rfl rfl (fun g => writable_missing (hhand pc rfl)) rfl rfl, by
        simp [Event.acceptedFrame]⟩
  | deliver o f pc worker =>
      exact ⟨h.congr rfl rfl (fun g hg => by cases hg) rfl rfl, by simp [Event.acceptedFrame]⟩

theorem apart_fits {s s' : State (HeaderMap X)} {a : Action (HeaderMap X)}
    {es : List (Event (HeaderMap X))} (h : Sendable s) (hapart : Apart s a s' es) :
    StepFits s' es := by
  have hids : s'.ids = s.ids := congrArg (List.map Stream.streamId) hapart.objs
  have hcloses : ∀ lastGood, .sendGoAway lastGood ∈ s'.closes → lastGood.toNat < 2 ^ 31 := by
    intro lastGood hmem
    cases hapart.close with
    | same closes silent => exact h.closes _ (closes _ hmem rfl)
    | swap closes gone silent =>
        rcases closes _ hmem rfl with hold | hnew
        · exact h.closes _ hold
        · cases hnew
    | load k action get closes silent =>
        rcases closes _ hmem with hold | hnew
        · exact h.closes _ hold
        · cases hnew
          exact h.last
    | send g mem closes announced => exact h.closes _ (closes _ hmem rfl)
  refine ⟨⟨?_, ?_, ?_, ?_, hcloses⟩, fun f hf => ?_⟩
  · rw [hids]
    exact h.ids
  · rw [hapart.last]
    exact h.last
  · rw [hapart.readTask]
    exact h.task
  · rw [hapart.calls]
    exact h.calls
  · obtain ⟨e, he, hfe⟩ := List.mem_flatMap.mp hf
    rcases hapart.events e he with ⟨k, g, rfl⟩ | ⟨k, p, rfl⟩
    · cases List.mem_singleton.mp hfe
      refine writable_goAway ?_
      cases hapart.close with
      | same closes silent | swap closes gone silent | load _ action get closes silent =>
          exact absurd he (silent k g)
      | send lastGood mem closes announced =>
          rw [announced k g he]
          exact h.closes _ mem
    · cases List.mem_singleton.mp hfe
      exact writable_ping p.id

theorem call_fits {s : State (HeaderMap X)} (h : Sendable s) {k : Nat} {c : Call (HeaderMap X)}
    (hc : FitsCall c.pc) : ∀ c' ∈ s.calls.set k c, FitsCall c'.pc := by
  intro c' hc'
  rcases List.mem_or_eq_of_mem_set hc' with hmem | rfl
  · exact h.calls c' hmem
  · exact hc

theorem aside_fits {s s' : State (HeaderMap X)} {a : Action (HeaderMap X)}
    {es : List (Event (HeaderMap X))} (h : Sendable s) (ha : FitsAction a)
    (hkind : AsideKind s a s' es) : StepFits s' es := by
  have haside := hkind.aside
  have hids : ∀ k ∈ s'.ids, k.toNat < 2 ^ 31 := by
    rw [haside.ids]
    exact h.ids
  cases hkind with
  | call k alt c st out action get obj outcome state events =>
      have hpc := h.calls c (List.mem_of_getElem? get)
      subst state events
      refine ⟨⟨hids, h.last, h.task, call_fits h (fitsCall_step hpc outcome), h.closes⟩,
        fun f hf => ?_⟩
      rcases callStep_channel outcome k c.stream with ⟨-, hmute⟩ | ⟨g, hsends, -, hone⟩
      · rw [hmute] at hf
        cases hf
      · rw [hone] at hf
        cases List.mem_singleton.mp hf
        exact writable_of_sends (h.id_of_get obj) hpc hsends
  | cancel k c st st' pc action get obj outcome state events =>
      have hpc : FitsCall pc := by
        cases hc : c.pc with
        | replySend _ _ | writeWait _ _ _ | writeSend _ _ | resetSend _ | readLock | readSelect =>
            rw [hc] at outcome
            cases outcome
            trivial
        | _ =>
            rw [hc] at outcome
            cases outcome
      subst state events
      exact ⟨⟨hids, h.last, h.task, call_fits h hpc, h.closes⟩, by simp⟩
  | invoke o r action mem state events =>
      subst action state events
      refine ⟨⟨hids, h.last, h.task, fun c hc => ?_, h.closes⟩, by simp [Event.acceptedFrame]⟩
      rcases List.mem_append.mp hc with hold | hnew
      · exact h.calls c hold
      · cases List.mem_singleton.mp hnew
        exact fitsCall_entry ha
  | apart hapart => exact apart_fits h hapart

/-- A worker sends nothing and leaves what others send. -/
theorem workerMove_fits {s s' : State (HeaderMap X)} {i : Fin nWorkers}
    {es : List (Event (HeaderMap X))} (h : Sendable s) (hmove : WorkerMove s i s' es) :
    StepFits s' es := by
  have hrest : s'.lastClientStreamId = s.lastClientStreamId ∧ s'.calls = s.calls ∧
      s'.closes = s.closes ∧ es.flatMap Event.acceptedFrame = [] := by
    cases hmove with
    | _ => exact ⟨rfl, rfl, rfl, rfl⟩
  obtain ⟨hlast, hcalls, hcloses, hmute⟩ := hrest
  refine ⟨h.congr hmove.ids hlast ?_ hcalls hcloses, ?_⟩
  · rw [hmove.readTask]
    exact h.task
  · rw [hmute]
    simp

theorem step_fits {s s' : State (HeaderMap X)} {a : Action (HeaderMap X)}
    {es : List (Event (HeaderMap X))} (h : Sendable s) (ha : FitsAction a)
    (hs : s.step a = some (s', es)) : StepFits s' es := by
  cases a with
  | read f =>
      simp only [State.step, State.readFrame] at hs
      split at hs
      · cases hs
        refine ⟨h.congr rfl rfl (fun g => writable_dispatch ha) rfl rfl, fun g hg => ?_⟩
        rw [List.flatMap_cons, acceptedFrame_rejectedAtOnce] at hg
        cases hg
      · cases hs
  | readFail | readPanic => exact readMove_fits h (readEnds_move ⟨rfl, rfl⟩ hs)
  | readTask pick => exact readMove_fits h (readStep_move hs)
  | workerRecv i => exact workerMove_fits h (workerRecv_move hs)
  | workerRun i => exact workerMove_fits h (workerRun_move hs)
  | _ => exact aside_fits h ha (aside_step rfl hs)

/-! ## What is written -/

/-- One more frame is written. -/
theorem writeFrames_snoc {f : Frame (HeaderMap X)} {fr₁ fr₂ : Framer Z}
    (hlast : Framing.writeFrame f fr₁ = .ok () fr₂) (fs : List (Frame (HeaderMap X))) :
    ∀ fr : Framer Z, writeFrames fs fr = .ok () fr₁ →
      writeFrames (fs ++ [f]) fr = .ok () fr₂ := by
  induction fs with
  | nil =>
      intro fr h
      cases h
      rw [List.nil_append, writeFrames, FramerM.bind_ok hlast]
      rfl
  | cons g fs ih =>
      intro fr h
      obtain ⟨_, fr', hfirst, h⟩ := FramerM.bind_eq_ok.mp h
      rw [List.cons_append, writeFrames, FramerM.bind_ok hfirst]
      exact ih fr' h

/-- The frames written so far, the framer behind them, and a part of one more. -/
structure Writes (io : TcpStream) (evs : List (Event (HeaderMap X))) (e : Served Z X)
    (written : List (Frame (HeaderMap X))) (fr : Framer Z) (part : Bytes) : Prop where
  write : writeFrames written (Framer.new Z io.writer.bytes ⟨[], .unexpectedEof⟩) = .ok () fr
  bytes : e.writeFramer.writer = fr.writer ++ part
  /-- they are the first that were accepted -/
  inOrder : written <+: .settings initialSettings :: evs.flatMap Event.acceptedFrame
  /-- while the write task runs, the others are in the channel -/
  whole : e.connection.writeChannel.isOpen = true → e.writeFramer = fr ∧ part = [] ∧
    written ++ e.connection.writeChannel.queue =
      .settings initialSettings :: evs.flatMap Event.acceptedFrame

variable {io : TcpStream} {guard : List (Event (HeaderMap X)) → Served Z X → Deed X → Prop}
  {evs : List (Event (HeaderMap X))} {e : Served Z X}

/-- A step that does not touch what is written. -/
theorem Writes.other {es : List (Event (HeaderMap X))} {e' : Served Z X} {a : Action (HeaderMap X)}
    {written : List (Frame (HeaderMap X))} {fr : Framer Z} {part : Bytes}
    (h : Writes io evs e written fr part)
    (hstep : e.connection.step a = some (e'.connection, es)) (ha : a ≠ .write ∧ a ≠ .writeFail)
    (hwriter : e'.writeFramer = e.writeFramer) : Writes io (evs ++ es) e' written fr part := by
  refine ⟨h.write, hwriter ▸ h.bytes, ?_, ?_⟩
  · rw [List.flatMap_append]
    exact h.inOrder.trans (List.prefix_append (Frame.settings initialSettings :: _) _)
  · rw [List.flatMap_append, hwriter]
    cases channel_move hstep with
    | same channel unwritten silent =>
        rw [channel, silent, List.append_nil]
        exact h.whole
    | puts f send unwritten events =>
        intro _
        obtain ⟨hframer, hpart, hqueue⟩ := h.whole (open_of_send send)
        refine ⟨hframer, hpart, ?_⟩
        rw [queue_of_send send, events, ← List.append_assoc, hqueue]
        rfl
    | writes _ _ action _ _ _ _ => exact absurd action ha.1
    | fails action _ _ => exact absurd action ha.2

theorem writes_run (h : (endpoint Z X io).Run guard evs e) :
    ∃ written fr part, Writes io evs e written fr part := by
  refine h.invariant (I := fun evs e => ∃ written fr part, Writes io evs e written fr part) ?_ ?_
  · exact ⟨[], _, [], rfl, (List.append_nil _).symm, List.nil_prefix, fun _ => ⟨rfl, rfl, rfl⟩⟩
  · rintro evs es e e' d - - hs ⟨written, fr, part, hwrites⟩
    cases deed_move hs with
    | reads f _ connection writeFramer =>
        exact ⟨written, fr, part, hwrites.other connection (by simp) writeFramer⟩
    | readEnds fault a action _ connection writeFramer =>
        refine ⟨written, fr, part, hwrites.other connection ?_ writeFramer⟩
        rcases action with ⟨rfl, -⟩ | ⟨rfl, -⟩
        · simp
        · simp
    | inside a _ untouched connection _ writeFramer =>
        refine ⟨written, fr, part, hwrites.other connection ?_ writeFramer⟩
        constructor
        · rintro rfl
          cases untouched
        · rintro rfl
          cases untouched
    | writes f next write connection _ =>
        obtain ⟨hopen, hhead⟩ := nextFrame_eq next
        obtain ⟨hframer, rfl, hqueue⟩ := hwrites.whole hopen
        obtain ⟨f', rest, hrest, -, hstate, rfl⟩ := write_step connection
        rw [hrest] at hhead hqueue
        cases hhead
        rw [hframer] at write
        refine ⟨written ++ [f], e'.writeFramer, [], writeFrames_snoc write _ _ hwrites.write,
          (List.append_nil _).symm, ?_, fun _ => ⟨rfl, rfl, ?_⟩⟩
        · rw [List.append_nil, ← hqueue]
          exact ⟨rest, List.append_assoc _ _ _⟩
        · rw [List.append_nil, ← hqueue, hstate]
          exact List.append_assoc _ _ _
    | writeEnds f part' next bytes connection _ =>
        obtain ⟨hframer, rfl, -⟩ := hwrites.whole (nextFrame_eq next).1
        obtain ⟨hstate, rfl⟩ := Prod.mk.inj (Option.some.inj connection)
        refine ⟨written, fr, part', hwrites.write, by rw [bytes, hframer], ?_, fun hopen => ?_⟩
        · rw [List.append_nil]
          exact hwrites.inOrder
        · rw [← hstate] at hopen
          cases hopen

/-! ## What the peer reads -/

/-- The first of some blocks are restored where all of them are. -/
theorem blocksRestored_isPrefix {raws' : List Bytes} (raws : List Bytes) :
    ∀ {c : Z.Compress} {d : Z.Decompress}, BlocksRestored Z c d (raws ++ raws') →
      BlocksRestored Z c d raws := by
  induction raws with
  | nil => exact fun _ => trivial
  | cons raw raws ih => exact fun h => ⟨h.1, h.2.1, ih h.2.2⟩

/-- The first of some frames have the same blocks. -/
theorem withBlocks_isPrefix {gs : List (Frame (HeaderMap X))} (fs : List (Frame (HeaderMap X))) :
    ∀ (c : Z.Compress), withBlocks Z c fs <+: withBlocks Z c (fs ++ gs) := by
  induction fs with
  | nil => exact fun _ => List.nil_prefix
  | cons f fs ih =>
      intro c
      simp only [List.cons_append, withBlocks]
      split
      · exact List.prefix_cons_inj _ |>.mpr (ih c)
      · exact List.prefix_cons_inj _ |>.mpr (ih _)

/-- Where handlers make requests that fit, everything that is accepted can be written. -/
def FitsDeed (_ : List (Event (HeaderMap X))) (_ : Served Z X) : Deed X → Prop
  | .inside a => FitsAction a
  | _ => True

theorem accepted_writable (h : (endpoint Z X io).Run FitsDeed evs e) :
    ∀ f ∈ evs.flatMap Event.acceptedFrame, f.Writable := by
  suffices hboth : Sendable e.connection ∧ ∀ f ∈ evs.flatMap Event.acceptedFrame, f.Writable from
    hboth.2
  refine h.invariant (I := fun evs e => Sendable e.connection ∧
    ∀ f ∈ evs.flatMap Event.acceptedFrame, f.Writable) ?_ ?_
  · have hzero : (0 : UInt32).toNat < 2 ^ 31 := by decide
    refine ⟨⟨?_, hzero, ?_, ?_, ?_⟩, ?_⟩
    · intro k hk
      cases hk
    · intro f hf
      cases hf
    · intro c hc
      cases hc
    · intro g hg
      cases hg
    · intro f hf
      cases hf
  · rintro evs es e e' d - hd hs ⟨hsend, hall⟩
    have hstep : ∃ a, FitsAction a ∧ e.connection.step a = some (e'.connection, es) := by
      cases deed_move hs with
      | reads f read connection _ =>
          have hf : FitsAction (.read f) := readFrame_writable read
          exact ⟨_, hf, connection⟩
      | readEnds fault a action _ connection _ =>
          refine ⟨a, ?_, connection⟩
          rcases action with ⟨rfl, -⟩ | ⟨rfl, -⟩
          · trivial
          · trivial
      | writes _ _ _ connection _ => exact ⟨.write, trivial, connection⟩
      | writeEnds _ _ _ _ connection _ => exact ⟨.writeFail, trivial, connection⟩
      | inside a deed _ connection _ _ =>
          subst deed
          exact ⟨a, hd, connection⟩
    obtain ⟨a, ha, hstep⟩ := hstep
    obtain ⟨hsend', hnew⟩ := step_fits hsend ha hstep
    refine ⟨hsend', fun f hf => ?_⟩
    rw [List.flatMap_append, List.mem_append] at hf
    rcases hf with hf | hf
    · exact hall f hf
    · exact hnew f hf

/-- What the peer of an endpoint reads. -/
structure Heard (io : TcpStream) (evs : List (Event (HeaderMap X))) (e : Served Z X)
    (reader : Bytes → Framer Z) (written gs : List (Frame (HeaderMap X))) (fr peer : Framer Z)
    (part : Bytes) : Prop where
  writes : Writes io evs e written fr part
  /-- behind what was there before, the peer reads every frame that was written -/
  read : ∃ bytes, fr.writer = io.writer.bytes ++ bytes ∧
    readFrames X written.length (reader (bytes ++ part)) = .ok gs peer
  same : List.Forall₂ Frame.Same gs written
  /-- and nothing is left but the part of a frame where the write task has failed -/
  rest : peer.reader.bytes = part

/-- What is written is read, where everything that was accepted can be written. -/
theorem heard_of_writes (sink : Bytes) (atEnd : IoErrorKind) {written : List (Frame (HeaderMap X))}
    {fr : Framer Z} {part : Bytes} (hwrites : Writes io evs e written fr part)
    (hall : ∀ f ∈ evs.flatMap Event.acceptedFrame, f.Writable)
    (hlen : ∀ p ∈ withBlocks Z Z.start
      (Frame.settings initialSettings :: evs.flatMap Event.acceptedFrame),
      p.1.headers? ≠ none → (p.1.payload p.2).length < 2 ^ 24)
    (hzlib : BlocksRestored Z Z.start Z.newDecompress
      (rawBlocks (Frame.settings initialSettings :: evs.flatMap Event.acceptedFrame))) :
    ∃ gs peer, Heard io evs e (fun bytes => Framer.new Z sink ⟨bytes, atEnd⟩) written gs fr peer
      part := by
  obtain ⟨rest, hrest⟩ := hwrites.inOrder
  have hwritable : ∀ f ∈ written, f.Writable := by
    intro f hf
    have hmem : f ∈ Frame.settings initialSettings :: evs.flatMap Event.acceptedFrame :=
      hwrites.inOrder.subset hf
    rcases List.mem_cons.mp hmem with rfl | hmem
    · exact writable_initialSettings
    · exact hall f hmem
  have hblocks : BlocksRestored Z Z.start Z.newDecompress (rawBlocks written) := by
    rw [← hrest, rawBlocks, List.filterMap_append] at hzlib
    exact blocksRestored_isPrefix _ hzlib
  have hshort : ∀ p ∈ withBlocks Z Z.start written, (p.1.payload p.2).length < 2 ^ 24 := by
    intro p hp
    by_cases hnone : p.1.headers? = none
    · obtain ⟨hmem, hblock⟩ := mem_withBlocks hp
      rw [hblock hnone]
      exact (hwritable p.1 hmem).fits hnone
    · refine hlen p ?_ hnone
      rw [← hrest]
      exact (withBlocks_isPrefix written Z.start).subset hp
  obtain ⟨c, hc⟩ :=
    writeFrames_run written (Framer.new Z io.writer.bytes ⟨[], .unexpectedEof⟩) _ rfl hblocks
  obtain ⟨gs, peer, hread, hsame, hleft⟩ :=
    readFrames_run written (Framer.new Z sink ⟨[], atEnd⟩) _ _ part rfl
      (fun f hf => (hwritable f hf).inRange) hshort hblocks
  have hfr : fr.writer = io.writer.bytes ++ wireBytes Z Z.start written := by
    cases hwrites.write.symm.trans hc
    rfl
  exact ⟨gs, peer, hwrites, ⟨_, hfr, hread⟩, hsame, hleft⟩

/-- **From the connection to the peer.**  Where handlers send headers and payloads that fit
a frame, the peer of an endpoint reads the frames that the endpoint has written, which are
the first that its channel has accepted.  It is assumed that each header block is no longer
than a payload can be, and that the peer's `decompressBlock` restores it, which its loop
does not do for all (`headersRestored_iff`). -/
theorem endpoint_heard (sink : Bytes) (atEnd : IoErrorKind)
    (h : (endpoint Z X io).Run FitsDeed evs e)
    (hlen : ∀ p ∈ withBlocks Z Z.start
      (Frame.settings initialSettings :: evs.flatMap Event.acceptedFrame),
      p.1.headers? ≠ none → (p.1.payload p.2).length < 2 ^ 24)
    (hzlib : BlocksRestored Z Z.start Z.newDecompress
      (rawBlocks (Frame.settings initialSettings :: evs.flatMap Event.acceptedFrame))) :
    ∃ written gs fr peer part, Heard io evs e
      (fun bytes => Framer.new Z sink ⟨bytes, atEnd⟩) written gs fr peer part := by
  obtain ⟨written, fr, part, hwrites⟩ := writes_run h
  obtain ⟨gs, peer, hheard⟩ :=
    heard_of_writes sink atEnd hwrites (accepted_writable h) hlen hzlib
  exact ⟨written, gs, fr, peer, part, hheard⟩

instance (f : Frame (HeaderMap X)) : Decidable f.Writable :=
  decidable_of_iff (f.InRange ∧ (f.headers? = none → (f.payload []).length < 2 ^ 24))
    ⟨fun h => ⟨h.1, h.2⟩, fun h => ⟨h.inRange, h.fits⟩⟩

instance : (r : Request (HeaderMap X)) → Decidable (FitsRequest r)
  | .sendReply headers _ => inferInstanceAs (Decidable headers.InRange)
  | .writeData data _ => inferInstanceAs (Decidable (data.length < 2 ^ 24))
  | .pollWrite buf => inferInstanceAs (Decidable (buf.length < 2 ^ 24))
  | .pollShutdown | .reset _ | .readData => inferInstanceAs (Decidable True)

instance : (a : Action (HeaderMap X)) → Decidable (FitsAction a)
  | .read f => inferInstanceAs (Decidable f.Writable)
  | .invoke _ r => inferInstanceAs (Decidable (FitsRequest r))
  | .readFail | .readPanic | .readTask _ | .workerRecv _ | .workerRun _ | .write | .writeFail
  | .call _ _ | .cancel _ | .close | .closeStep _ | .closeTimeout _ | .ping | .pingStep _
  | .pingTimeout _ => inferInstanceAs (Decidable True)

instance (evs : List (Event (HeaderMap X))) (e : Served Z X) :
    (d : Deed X) → Decidable (FitsDeed evs e d)
  | .inside a => inferInstanceAs (Decidable (FitsAction a))
  | .readFrame | .writeFrame | .writeError _ => inferInstanceAs (Decidable True)

/-- A transport on which the peer has opened a stream. -/
def openedStream : TcpStream where
  reader := ⟨(writerOf [.synStream ⟨1, 0, 0, HeaderMap.new _, 0⟩]).writer, .unexpectedEof⟩
  writer := ⟨[], none⟩

/-- A handler replies and ends its side, and the peer reads the reply. -/
theorem endpoint_heard_reply : ∃ evs e,
    (endpoint Zlib.reference Http.reference openedStream).Run FitsDeed evs e ∧
    evs.flatMap Event.acceptedFrame = [.synReply ⟨1, methodGet, flagFin⟩] ∧
    ∃ written gs fr peer part, Heard openedStream evs e
      (fun bytes => Framer.new Zlib.reference [] ⟨bytes, .unexpectedEof⟩) written gs fr peer
      part := by
  let inside : List (Action (HeaderMap Http.reference)) → List (Deed Http.reference) :=
    List.map Deed.inside
  obtain ⟨evs, e, h, hcheck⟩ := Machine.exists_run_of_exec
    (endpoint Zlib.reference Http.reference openedStream) FitsDeed
    ([.readFrame] ++ inside (List.replicate 5 (.readTask 0)) ++
      inside [.workerRecv (workerIdx 1), .workerRun (workerIdx 1),
        .invoke 0 (.sendReply methodGet true)] ++
      inside (calls 0 4) ++ [.writeFrame, .writeFrame])
    (fun evs _ => decide (evs.flatMap Event.acceptedFrame =
      [.synReply ⟨1, methodGet, flagFin⟩]))
    (by decide +kernel)
  have haccepted := of_decide_eq_true hcheck
  refine ⟨evs, e, h, haccepted, endpoint_heard [] .unexpectedEof h ?_ ?_⟩
  · rw [haccepted]
    decide +kernel
  · rw [haccepted]
    exact ⟨by decide +kernel, by decide +kernel, trivial⟩

end SpdyStream.Wire
