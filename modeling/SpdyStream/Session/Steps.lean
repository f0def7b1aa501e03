/-
  Session/Steps.lean --- what each step of the connection can do.

  `CallMove` and `TaskMove` list the operations of a call and of the read task.
  The streams are registered and their frames routed by the read task and the
  workers alone: `Aside` says what all other steps leave as it is, `ReadMove`
  and `WorkerMove` list the moves of the read task and of a worker, and
  `step_kind` puts them together.  The invariants of the later files are proved
  from these.
-/
import SpdyStream.Session.Connection

set_option autoImplicit false

namespace SpdyStream.Session

open SpdyStream.Foundation
open SpdyStream.Framing

variable {H : Type}

/-- The ids of the streams made so far. -/
def State.ids (s : State H) : List UInt32 := s.objs.map Stream.streamId

/-! ## Streams under calls -/

/-- What no call changes in a stream. -/
def Stream.peerSide (st : Stream H) : UInt32 × Bool := (st.streamId, st.remoteClosed)

/-- A send leaves the receiver where it is. -/
theorem send_isOpen {c c' : Channel H} {f : Frame H} (h : c.send f = .sent c') :
    c'.isOpen = c.isOpen := by
  unfold Channel.send at h
  split at h
  · cases h
  · split at h
    · cases h
      rfl
    · cases h

theorem open_of_send {c c' : Channel H} {f : Frame H} (h : c.send f = .sent c') :
    c.isOpen = true := by
  unfold Channel.send at h
  split at h
  · cases h
  · rename_i hopen
    exact eq_true_of_ne_false hopen

theorem closed_of_send {c : Channel H} {f : Frame H} (h : c.send f = .closed) :
    c.isOpen = false := by
  unfold Channel.send at h
  split at h
  · assumption
  · split at h
    · cases h
    · cases h

/-- The payload that a call returns. -/
def CallEffect.payload : CallEffect H → List Bytes
  | .enqueued _ => []
  | .delivered d => [d]

/-- The frame that the next operation of a call sends. -/
def CallPc.sends (st : Stream H) : CallPc H → Option (Frame H)
  | .replySend headers fin => some (replyFrame st headers fin)
  | .writeSend data fin => some (dataFrame st data fin)
  | .pollSend buf => some (dataFrame st buf false)
  | .shutdownSend => some (dataFrame st [] true)
  | .resetSend status => some (.rstStream { streamId := st.streamId, status })
  | _ => none

theorem sends_target {pc : CallPc H} {st : Stream H} {f : Frame H} (h : pc.sends st = some f) :
    f.target = st.streamId := by
  cases pc with
  | replySend _ _ | writeSend _ _ | pollSend _ | shutdownSend | resetSend _ =>
      cases h
      rfl
  | _ => cases h

/-- What one operation of a call comes to, place by place. -/
inductive CallMove (alt : Bool) (st : Stream H) (c : Channel H) :
    CallPc H → CallOutcome H → Prop where
  | replySend (headers : H) (fin : Bool) {out : CallOutcome H}
      (send : sendThen c st (replyFrame st headers fin) (.replyStoreReplied fin) = some out) :
      CallMove alt st c (.replySend headers fin) out
  | storesReplied (fin : Bool) :
      CallMove alt st c (.replyStoreReplied fin)
        ⟨.replyNotify fin, { st with replied := true }, c, []⟩
  | notifies : CallMove alt st c (.replyNotify false)
      ⟨.returned .ok, { st with notifies := st.notifies + 1 }, c, []⟩
  | notifiesFin : CallMove alt st c (.replyNotify true)
      ⟨.replyStoreFin, { st with notifies := st.notifies + 1 }, c, []⟩
  | storesFin : CallMove alt st c .replyStoreFin
      ⟨.returned .ok, { st with localFinSent := true }, c, []⟩
  | loadsReplied (data : Bytes) (fin : Bool) (replied : st.replied = true) :
      CallMove alt st c (.writeLoad data fin) ⟨.writeCheckFin data fin, st, c, []⟩
  | loadsUnreplied (data : Bytes) (fin : Bool) (replied : st.replied = false) :
      CallMove alt st c (.writeLoad data fin) ⟨.writeNotified data fin, st, c, []⟩
  | notified (data : Bytes) (fin : Bool) :
      CallMove alt st c (.writeNotified data fin) ⟨.writeReload data fin st.notifies, st, c, []⟩
  | reloadsReplied (data : Bytes) (fin : Bool) (seen : Nat) (replied : st.replied = true) :
      CallMove alt st c (.writeReload data fin seen) ⟨.writeCheckFin data fin, st, c, []⟩
  | reloadsUnreplied (data : Bytes) (fin : Bool) (seen : Nat) (replied : st.replied = false) :
      CallMove alt st c (.writeReload data fin seen) ⟨.writeWait data fin seen, st, c, []⟩
  | wakes (data : Bytes) (fin : Bool) (seen : Nat) (notifies : st.notifies ≠ seen) :
      CallMove alt st c (.writeWait data fin seen) ⟨.writeLoad data fin, st, c, []⟩
  | checkFails (data : Bytes) (fin : Bool) (sent : st.localFinSent = true) :
      CallMove alt st c (.writeCheckFin data fin) ⟨.returned (.failed .streamClosed), st, c, []⟩
  | checkFin (data : Bytes) (sent : st.localFinSent = false) :
      CallMove alt st c (.writeCheckFin data true) ⟨.writeStoreFin data, st, c, []⟩
  | checkPlain (data : Bytes) (sent : st.localFinSent = false) :
      CallMove alt st c (.writeCheckFin data false) ⟨.writeSend data false, st, c, []⟩
  | claimsFin (data : Bytes) : CallMove alt st c (.writeStoreFin data)
      ⟨.writeSend data true, { st with localFinSent := true }, c, []⟩
  | writeSend (data : Bytes) (fin : Bool) {out : CallOutcome H}
      (send : sendThen c st (dataFrame st data fin) (.returned .ok) = some out) :
      CallMove alt st c (.writeSend data fin) out
  | pollSend (buf : Bytes) : CallMove alt st c (.pollSend buf)
      (tryThen alt c st (dataFrame st buf false) (.returned (.written buf.length)))
  | shutdownDone (sent : st.localFinSent = true) :
      CallMove alt st c .shutdownLoad ⟨.returned .ok, st, c, []⟩
  | shutdownGoes (sent : st.localFinSent = false) :
      CallMove alt st c .shutdownLoad ⟨.shutdownSend, st, c, []⟩
  | shutdownSend : CallMove alt st c .shutdownSend
      (tryThen alt c st (dataFrame st [] true) .shutdownStore)
  | shutdownStores : CallMove alt st c .shutdownStore
      ⟨.returned .ok, { st with localFinSent := true }, c, []⟩
  | resetSend (status : RstStatus) {out : CallOutcome H}
      (send : sendThen c st (.rstStream { streamId := st.streamId, status }) (.returned .ok) =
        some out) :
      CallMove alt st c (.resetSend status) out
  | locks (free : st.dataLocked = false) :
      CallMove alt st c .readLock ⟨.readTry, { st with dataLocked := true }, c, []⟩
  | tryTakes (d : Bytes) (rest : List Bytes) (queue : st.dataQueue = d :: rest) :
      CallMove alt st c .readTry (receive c st d rest)
  | tryEmpty (queue : st.dataQueue = []) : CallMove alt st c .readTry ⟨.readBorrow, st, c, []⟩
  | borrowEnds (closed : st.remoteClosed = true) :
      CallMove alt st c .readBorrow (readReturn c st none)
  | borrowGoes (here : st.remoteClosed = false) :
      CallMove alt st c .readBorrow ⟨.readSelect, st, c, []⟩
  | selectCloses (branch : alt = true) (closed : st.remoteClosed = true) :
      CallMove alt st c .readSelect ⟨.readDrain, st, c, []⟩
  | selectTakes (d : Bytes) (rest : List Bytes) (branch : alt = false)
      (queue : st.dataQueue = d :: rest) : CallMove alt st c .readSelect (receive c st d rest)
  | drainTakes (d : Bytes) (rest : List Bytes) (queue : st.dataQueue = d :: rest) :
      CallMove alt st c .readDrain (receive c st d rest)
  | drainEnds (queue : st.dataQueue = []) :
      CallMove alt st c .readDrain (readReturn c st none)

theorem call_step {alt : Bool} {pc : CallPc H} {st : Stream H} {c : Channel H}
    {out : CallOutcome H} (h : callStep alt pc st c = some out) : CallMove alt st c pc out := by
  cases pc with
  | replySend headers fin => exact .replySend headers fin h
  | writeSend data fin => exact .writeSend data fin h
  | resetSend status => exact .resetSend status h
  | pollSend buf =>
      cases h
      exact .pollSend buf
  | shutdownSend =>
      cases h
      exact .shutdownSend
  | replyStoreReplied fin =>
      cases h
      exact .storesReplied fin
  | replyNotify fin =>
      cases h
      cases fin with
      | false => exact .notifies
      | true => exact .notifiesFin
  | replyStoreFin =>
      cases h
      exact .storesFin
  | writeStoreFin data =>
      cases h
      exact .claimsFin data
  | shutdownStore =>
      cases h
      exact .shutdownStores
  | writeNotified data fin =>
      cases h
      exact .notified data fin
  | writeLoad data fin =>
      cases h
      cases hreplied : st.replied with
      | true => exact .loadsReplied data fin hreplied
      | false => exact .loadsUnreplied data fin hreplied
  | writeReload data fin seen =>
      cases h
      cases hreplied : st.replied with
      | true => exact .reloadsReplied data fin seen hreplied
      | false => exact .reloadsUnreplied data fin seen hreplied
  | writeCheckFin data fin =>
      cases h
      cases hsent : st.localFinSent with
      | true => exact .checkFails data fin hsent
      | false =>
          cases fin with
          | true => exact .checkFin data hsent
          | false => exact .checkPlain data hsent
  | shutdownLoad =>
      cases h
      cases hsent : st.localFinSent with
      | true => exact .shutdownDone hsent
      | false => exact .shutdownGoes hsent
  | writeWait data fin seen =>
      simp only [callStep] at h
      split at h
      · cases h
      · rename_i hnotifies
        cases h
        exact .wakes data fin seen hnotifies
  | readLock =>
      simp only [callStep] at h
      split at h
      · cases h
      · rename_i hfree
        cases h
        exact .locks (eq_false_of_ne_true hfree)
  | readTry =>
      simp only [callStep] at h
      split at h
      · rename_i d rest hqueue
        cases h
        exact .tryTakes d rest hqueue
      · rename_i hqueue
        cases h
        exact .tryEmpty hqueue
  | readBorrow =>
      simp only [callStep] at h
      split at h
      · rename_i hclosed
        cases h
        exact .borrowEnds hclosed
      · rename_i hopen
        cases h
        exact .borrowGoes (eq_false_of_ne_true hopen)
  | readSelect =>
      simp only [callStep] at h
      split at h
      · rename_i hbranch
        split at h
        · rename_i hclosed
          cases h
          exact .selectCloses hbranch hclosed
        · cases h
      · rename_i hbranch
        split at h
        · rename_i d rest hqueue
          cases h
          exact .selectTakes d rest (eq_false_of_ne_true hbranch) hqueue
        · cases h
  | readDrain =>
      simp only [callStep] at h
      split at h
      · rename_i d rest hqueue
        cases h
        exact .drainTakes d rest hqueue
      · rename_i hqueue
        cases h
        exact .drainEnds hqueue
  | returned _ => cases h

/-- What one operation of a call keeps: the peer's side of the stream, the
receiver of the channel, and every payload it does not return; and what it sends. -/
structure CallKeeps (sends : Option (Frame H)) (st : Stream H) (c : Channel H)
    (out : CallOutcome H) : Prop where
  peerSide : out.stream.peerSide = st.peerSide
  channel : out.channel.isOpen = c.isOpen
  payloads : st.dataQueue = out.effects.flatMap CallEffect.payload ++ out.stream.dataQueue
  sent : ∀ f, .enqueued f ∈ out.effects → sends = some f ∧ c.isOpen = true

theorem sendThen_keeps {c : Channel H} {st : Stream H} {f : Frame H} {next : CallPc H}
    {out : CallOutcome H} (h : sendThen c st f next = some out) : CallKeeps (some f) st c out := by
  unfold sendThen at h
  split at h
  · cases h
  · cases h
    exact ⟨rfl, rfl, rfl, by simp⟩
  · rename_i hsent
    cases h
    exact ⟨rfl, send_isOpen hsent, rfl, by simp [open_of_send hsent]⟩

theorem tryThen_keeps (blocked : Bool) (c : Channel H) (st : Stream H) (f : Frame H)
    (next : CallPc H) : CallKeeps (some f) st c (tryThen blocked c st f next) := by
  unfold tryThen
  split
  · exact ⟨rfl, rfl, rfl, by simp⟩
  · exact ⟨rfl, rfl, rfl, by simp⟩
  · rename_i hsent
    split
    · exact ⟨rfl, rfl, rfl, by simp⟩
    · exact ⟨rfl, send_isOpen hsent, rfl, by simp [open_of_send hsent]⟩

/-- What a send comes to. -/
theorem sendThen_cases {c : Channel H} {st : Stream H} {f : Frame H} {next : CallPc H}
    {out : CallOutcome H} (h : sendThen c st f next = some out) :
    c.isOpen = false ∧ out = ⟨.returned (.failed .connectionClosed), st, c, []⟩ ∨
    c.isOpen = true ∧ out.effects = [.enqueued f] ∧ out.stream = st ∧ out.pc = next := by
  unfold sendThen at h
  split at h
  · cases h
  · rename_i hclosed
    cases h
    exact .inl ⟨closed_of_send hclosed, rfl⟩
  · rename_i hsent
    cases h
    exact .inr ⟨open_of_send hsent, rfl, rfl, rfl⟩

/-- What a `try_send` comes to. -/
theorem admits_of_send {blocked : Bool} {c c' : Channel H} {f : Frame H}
    (h : c.send f = .sent c') (hblocked : blocked = false) : c.admits blocked = true := by
  have hopen := open_of_send h
  unfold Channel.send at h
  split at h
  · cases h
  · split at h
    · rename_i hroom
      simp [Channel.admits, hopen, hroom, hblocked]
    · cases h

theorem tryThen_cases (blocked : Bool) (c : Channel H) (st : Stream H) (f : Frame H)
    (next : CallPc H) :
    (∃ r, tryThen blocked c st f next = ⟨.returned r, st, c, []⟩) ∨
    c.isOpen = true ∧ (tryThen blocked c st f next).effects = [.enqueued f] ∧
      (tryThen blocked c st f next).stream = st ∧ (tryThen blocked c st f next).pc = next := by
  unfold tryThen
  split
  · exact .inl ⟨_, rfl⟩
  · exact .inl ⟨_, rfl⟩
  · rename_i hsent
    split
    · exact .inl ⟨_, rfl⟩
    · exact .inr ⟨open_of_send hsent, rfl, rfl, rfl⟩

/-- A `try_send` that puts a frame into the channel succeeds. -/
theorem tryThen_admits {blocked : Bool} {c : Channel H} {st : Stream H} {f g : Frame H}
    {next : CallPc H} (h : .enqueued g ∈ (tryThen blocked c st f next).effects) :
    c.admits blocked = true := by
  unfold tryThen at h
  split at h
  · cases h
  · cases h
  · rename_i hsent
    split at h
    · cases h
    · rename_i hblocked
      exact admits_of_send hsent (eq_false_of_ne_true hblocked)

theorem readReturn_keeps (sends : Option (Frame H)) (c : Channel H) (st : Stream H)
    (d : Option Bytes) : CallKeeps sends st c (readReturn c st d) :=
  ⟨rfl, rfl, rfl, by simp [readReturn]⟩

theorem receive_keeps (sends : Option (Frame H)) (c : Channel H) {st : Stream H} {d : Bytes}
    {rest : List Bytes} (hqueue : st.dataQueue = d :: rest) :
    CallKeeps sends st c (receive c st d rest) :=
  ⟨rfl, rfl, hqueue, by simp [receive]⟩

theorem callStep_keeps {alt : Bool} {pc : CallPc H} {st : Stream H} {c : Channel H}
    {out : CallOutcome H} (h : callStep alt pc st c = some out) :
    CallKeeps (pc.sends st) st c out := by
  cases call_step h with
  | replySend _ _ send | writeSend _ _ send | resetSend _ send => exact sendThen_keeps send
  | pollSend _ | shutdownSend => exact tryThen_keeps _ _ _ _ _
  | tryTakes _ _ queue | selectTakes _ _ _ queue | drainTakes _ _ queue =>
      exact receive_keeps _ _ queue
  | borrowEnds _ | drainEnds _ => exact readReturn_keeps _ _ _ _
  | _ => exact ⟨rfl, rfl, rfl, by simp⟩

theorem callCancel_keeps {pc pc' : CallPc H} {st st' : Stream H}
    (h : callCancel pc st = some (pc', st')) :
    st'.peerSide = st.peerSide ∧ st'.dataQueue = st.dataQueue := by
  cases pc with
  | replySend _ _ | writeSend _ _ | writeWait _ _ _ | resetSend _ | readLock | readSelect =>
      cases h
      exact ⟨rfl, rfl⟩
  | _ => cases h

/-- Storing a stream with the same projection leaves the projections. -/
theorem map_set_eq {α β : Type} {g : α → β} {l : List α} {i : Nat} {x y : α}
    (hx : l[i]? = some x) (hg : g y = g x) : (l.set i y).map g = l.map g := by
  obtain ⟨hi, rfl⟩ := List.getElem?_eq_some_iff.mp hx
  have hi' : i < (l.map g).length := by rwa [List.length_map]
  have hget : g l[i] = (l.map g)[i] := (List.getElem_map g).symm
  rw [List.map_set, hg, hget, List.set_getElem_self hi']

/-- So does changing a stream in a way that the projection does not see. -/
theorem map_modify_eq {α β : Type} {g : α → β} {f : α → α} (h : ∀ x, g (f x) = g x)
    (l : List α) (i : Nat) : (l.modify i f).map g = l.map g := by
  refine List.ext_getElem? fun j => ?_
  rw [List.getElem?_map, List.getElem?_map, List.getElem?_modify]
  cases l[j]? with
  | none => rfl
  | some x =>
      split
      · exact congrArg some (h x)
      · rfl

/-! ## Steps aside -/

/-- The events of no frame that was read. -/
def Event.isQuiet : Event H → Bool
  | .invoked _ _ | .enqueued _ _ | .delivered _ _ => true
  | .read _ | .accepted _ _ | .rejected _ _ | .lookedUp _ _ | .forwarded _ _ | .applied _ _
  | .worked _ _ | .pushed _ _ _ | .removed _ _ => false

/-- A log that no quiet event adds to is left as it is by quiet events. -/
theorem flatMap_quiet {β : Type} {pick : Event H → List β} {es : List (Event H)}
    (hpick : ∀ e, e.isQuiet = true → pick e = []) (hes : ∀ e ∈ es, e.isQuiet = true) :
    es.flatMap pick = [] :=
  List.flatMap_eq_nil_iff.mpr fun e he => hpick e (hes e he)

/-- A step that leaves the read task, the workers and what they keep alone. -/
structure Aside (s s' : State H) (es : List (Event H)) : Prop where
  readTask : s'.readTask = s.readTask
  streams : s'.streams = s.streams
  last : s'.lastClientStreamId = s.lastClientStreamId
  workers : s'.workers = s.workers
  handed : s'.handed = s.handed
  peerSide : s'.objs.map Stream.peerSide = s.objs.map Stream.peerSide
  gone : s.goneAway = true → s'.goneAway = true
  channel : s'.writeChannel.isOpen = true → s.writeChannel.isOpen = true
  quiet : ∀ e ∈ es, e.isQuiet = true

/-- The call has still to send its GOAWAY. -/
def CloseCall.announces : CloseCall → Bool
  | .loadLast | .sendGoAway _ => true
  | .swap | .broadcast | .drain | .returned => false

/-- What a step does to the calls of `close` that have still to send GOAWAY. -/
inductive CloseMove (s : State H) (a : Action H) (s' : State H) (es : List (Event H)) : Prop where
  | same (closes : ∀ c ∈ s'.closes, c.announces = true → c ∈ s.closes)
      (silent : ∀ k g, .enqueued (.close k) (.goAway g) ∉ es)
  | swap (closes : ∀ c ∈ s'.closes, c.announces = true → c ∈ s.closes ∨ c = .loadLast)
      (gone : s'.goneAway = true) (silent : ∀ k g, .enqueued (.close k) (.goAway g) ∉ es)
  | load (k : Nat) (action : a = .closeStep k) (get : s.closes[k]? = some .loadLast)
      (closes : ∀ c ∈ s'.closes, c ∈ s.closes ∨ c = .sendGoAway s.lastClientStreamId)
      (silent : ∀ k g, .enqueued (.close k) (.goAway g) ∉ es)
  | send (lastGood : UInt32) (mem : .sendGoAway lastGood ∈ s.closes)
      (closes : ∀ c ∈ s'.closes, c.announces = true → c ∈ s.closes)
      (announced : ∀ k g, .enqueued (.close k) (.goAway g) ∈ es → g.lastGoodStreamId = lastGood)

/-- A call of `close` that is set aside leaves the others. -/
theorem announces_of_set {l : List CloseCall} {k : Nat} {c' : CloseCall}
    (hc' : c'.announces = false) : ∀ c ∈ l.set k c', c.announces = true → c ∈ l := by
  intro c hc hann
  rcases List.mem_or_eq_of_mem_set hc with hmem | rfl
  · exact hmem
  · rw [hc'] at hann
    cases hann

/-- A step that leaves the calls of `close` and sends no GOAWAY. -/
theorem closeMove_same {s s' : State H} {a : Action H} {es : List (Event H)}
    (hcloses : s'.closes = s.closes) (hes : ∀ k g, .enqueued (.close k) (.goAway g) ∉ es) :
    CloseMove s a s' es :=
  .same (fun _ hc _ => hcloses ▸ hc) hes

/-- A step of the write task, of a `close` or of a `ping`. -/
structure Apart (s : State H) (a : Action H) (s' : State H) (es : List (Event H)) : Prop where
  readTask : s'.readTask = s.readTask
  streams : s'.streams = s.streams
  last : s'.lastClientStreamId = s.lastClientStreamId
  workers : s'.workers = s.workers
  handed : s'.handed = s.handed
  objs : s'.objs = s.objs
  calls : s'.calls = s.calls
  gone : s.goneAway = true → s'.goneAway = true
  channel : s'.writeChannel.isOpen = true → s.writeChannel.isOpen = true
  close : CloseMove s a s' es
  events : ∀ e ∈ es, (∃ k g, e = .enqueued (.close k) (.goAway g)) ∨
    ∃ k p, e = .enqueued (.ping k) (.ping p)

/-- A step of the calls on streams, or apart from them. -/
inductive AsideKind (s : State H) (a : Action H) (s' : State H) (es : List (Event H)) : Prop where
  | call (k : Nat) (alt : Bool) (c : Call H) (st : Stream H) (out : CallOutcome H)
      (action : a = .call k alt) (get : s.calls[k]? = some c) (obj : s.objs[c.stream]? = some st)
      (outcome : callStep alt c.pc st s.writeChannel = some out)
      (state : s' = { s with
        calls := s.calls.set k { c with pc := out.pc }
        objs := s.objs.set c.stream out.stream
        writeChannel := out.channel })
      (events : es = out.effects.map (callEvent k c.stream))
  | cancel (k : Nat) (c : Call H) (st st' : Stream H) (pc : CallPc H) (action : a = .cancel k)
      (get : s.calls[k]? = some c) (obj : s.objs[c.stream]? = some st)
      (outcome : callCancel c.pc st = some (pc, st'))
      (state : s' = { s with
        calls := s.calls.set k { c with pc := pc }
        objs := s.objs.set c.stream st' })
      (events : es = [])
  | invoke (o : Nat) (r : Request H) (action : a = .invoke o r) (mem : o ∈ s.handed)
      (state : s' = { s with calls := s.calls ++ [{ stream := o, pc := r.entry }] })
      (events : es = [.invoked o r])
  | apart (h : Apart s a s' es)

theorem Apart.aside {s s' : State H} {a : Action H} {es : List (Event H)}
    (h : Apart s a s' es) : Aside s s' es := by
  refine ⟨h.readTask, h.streams, h.last, h.workers, h.handed, by rw [h.objs], h.gone, h.channel,
    fun e he => ?_⟩
  rcases h.events e he with ⟨k, g, rfl⟩ | ⟨k, p, rfl⟩
  · rfl
  · rfl

theorem Aside.ids {s s' : State H} {es : List (Event H)} (h : Aside s s' es) : s'.ids = s.ids := by
  have hfst := congrArg (List.map Prod.fst) h.peerSide
  rwa [List.map_map, List.map_map] at hfst

theorem stepCall_kind {s s' : State H} {k : Nat} {alt : Bool} {es : List (Event H)}
    (h : s.stepCall k alt = some (s', es)) : AsideKind s (.call k alt) s' es := by
  unfold State.stepCall at h
  split at h
  · cases h
  · rename_i c hc
    split at h
    · cases h
    · rename_i st hst
      split at h
      · cases h
      · rename_i out hout
        cases h
        exact .call k alt c st out rfl hc hst hout rfl rfl

theorem cancelCall_kind {s s' : State H} {k : Nat} {es : List (Event H)}
    (h : s.cancelCall k = some (s', es)) : AsideKind s (.cancel k) s' es := by
  unfold State.cancelCall at h
  split at h
  · cases h
  · rename_i c hc
    split at h
    · cases h
    · rename_i st hst
      split at h
      · cases h
      · rename_i pc st' hcancel
        cases h
        exact .cancel k c st st' pc rfl hc hst hcancel rfl rfl

theorem AsideKind.aside {s s' : State H} {a : Action H} {es : List (Event H)}
    (h : AsideKind s a s' es) : Aside s s' es := by
  cases h with
  | call k alt c st out action get obj outcome state events =>
      have hkeeps := callStep_keeps outcome
      subst state events
      refine ⟨rfl, rfl, rfl, rfl, rfl, map_set_eq obj hkeeps.peerSide, id, fun ho => ?_, ?_⟩
      · rwa [hkeeps.channel] at ho
      · intro e he
        obtain ⟨eff, -, rfl⟩ := List.mem_map.mp he
        cases eff with
        | enqueued f => rfl
        | delivered d => rfl
  | cancel k c st st' pc action get obj outcome state events =>
      subst state events
      exact ⟨rfl, rfl, rfl, rfl, rfl, map_set_eq obj (callCancel_keeps outcome).1, id, id, by simp⟩
  | invoke o r action mem state events =>
      subst state events
      exact ⟨rfl, rfl, rfl, rfl, rfl, rfl, id, id, by simp [Event.isQuiet]⟩
  | apart h => exact h.aside

/-- A send whose result is ignored changes the write channel only. -/
theorem sendIgnoring_eq {s s' : State H} {src : Source} {f : Frame H} {es : List (Event H)}
    (h : s.sendIgnoring src f = some (s', es)) :
    ∃ c, s' = { s with writeChannel := c } ∧ c.isOpen = s.writeChannel.isOpen ∧
      (es = [] ∧ s.writeChannel.isOpen = false ∨ es = [.enqueued src f]) := by
  unfold State.sendIgnoring at h
  split at h
  · cases h
  · rename_i hclosed
    cases h
    exact ⟨s.writeChannel, rfl, rfl, .inl ⟨rfl, closed_of_send hclosed⟩⟩
  · rename_i c hsent
    cases h
    exact ⟨c, rfl, send_isOpen hsent, .inr rfl⟩

theorem signalPing_eq (s : State H) (id : UInt32) (rx : Oneshot) :
    ∃ pingMap pings, s.signalPing id rx = { s with pingMap := pingMap, pings := pings } := by
  unfold State.signalPing
  split
  · exact ⟨s.pingMap, s.pings, rfl⟩
  · exact ⟨_, _, rfl⟩

/-- A step that changes none of what `Apart` keeps, and sends nothing. -/
theorem apart_mute {s s' : State H} {a : Action H} (hread : s'.readTask = s.readTask)
    (hstreams : s'.streams = s.streams) (hlast : s'.lastClientStreamId = s.lastClientStreamId)
    (hworkers : s'.workers = s.workers) (hhanded : s'.handed = s.handed)
    (hobjs : s'.objs = s.objs) (hcalls : s'.calls = s.calls)
    (hgone : s.goneAway = true → s'.goneAway = true)
    (hchannel : s'.writeChannel.isOpen = true → s.writeChannel.isOpen = true)
    (hclose : CloseMove s a s' []) : Apart s a s' [] :=
  ⟨hread, hstreams, hlast, hworkers, hhanded, hobjs, hcalls, hgone, hchannel, hclose, by simp⟩

theorem stepClose_apart {s s' : State H} {k : Nat} {es : List (Event H)}
    (h : s.stepClose k = some (s', es)) : Apart s (.closeStep k) s' es := by
  unfold State.stepClose at h
  split at h
  · cases h
  · cases h
    refine apart_mute rfl rfl rfl rfl rfl rfl rfl (fun _ => rfl) id ?_
    refine .swap (fun c hc hann => ?_) rfl (by simp)
    rcases List.mem_or_eq_of_mem_set hc with hmem | rfl
    · exact .inl hmem
    · split at hann
      · cases hann
      · rename_i hnot
        exact .inr (if_neg hnot)
  · rename_i hget
    cases h
    refine apart_mute rfl rfl rfl rfl rfl rfl rfl id id ?_
    exact .load k rfl hget (fun c hc => List.mem_or_eq_of_mem_set hc) (by simp)
  · rename_i lastGood hget
    obtain ⟨⟨s₁, es₁⟩, hsend, hr⟩ := Option.map_eq_some_iff.mp h
    obtain ⟨c, rfl, hopen, hes⟩ := sendIgnoring_eq hsend
    cases hr
    refine ⟨rfl, rfl, rfl, rfl, rfl, rfl, rfl, id, fun ho => hopen ▸ ho, ?_, fun e he => .inl ?_⟩
    · refine .send lastGood (List.mem_of_getElem? hget) (announces_of_set rfl) fun k' g hg => ?_
      rcases hes with ⟨rfl, -⟩ | rfl
      · cases hg
      · cases List.mem_singleton.mp hg
        rfl
    · rcases hes with ⟨rfl, -⟩ | rfl
      · cases he
      · exact ⟨k, _, List.mem_singleton.mp he⟩
  · cases h
    exact apart_mute rfl rfl rfl rfl rfl rfl rfl id id (.same (announces_of_set rfl) (by simp))
  · split at h
    · cases h
      exact apart_mute rfl rfl rfl rfl rfl rfl rfl id id (.same (announces_of_set rfl) (by simp))
    · cases h
  · cases h

theorem stepPing_apart {s s' : State H} {k : Nat} {es : List (Event H)}
    (h : s.stepPing k = some (s', es)) : Apart s (.pingStep k) s' es := by
  unfold State.stepPing at h
  split at h
  · cases h
  · cases h
    exact apart_mute rfl rfl rfl rfl rfl rfl rfl id id (closeMove_same rfl (by simp))
  · rename_i id' _
    obtain ⟨pingMap, pings, heq⟩ := signalPing_eq s id' .dropped
    rw [heq] at h
    cases h
    exact apart_mute rfl rfl rfl rfl rfl rfl rfl id id (closeMove_same rfl (by simp))
  · split at h
    · cases h
    · cases h
      exact apart_mute rfl rfl rfl rfl rfl rfl rfl id id (closeMove_same rfl (by simp))
    · rename_i hsent
      cases h
      refine ⟨rfl, rfl, rfl, rfl, rfl, rfl, rfl, id, fun ho => send_isOpen hsent ▸ ho,
        closeMove_same rfl (by simp), fun e he => .inr ?_⟩
      exact ⟨k, _, List.mem_singleton.mp he⟩
  · cases h
  · cases h
    exact apart_mute rfl rfl rfl rfl rfl rfl rfl id id (closeMove_same rfl (by simp))
  · cases h
    exact apart_mute rfl rfl rfl rfl rfl rfl rfl id id (closeMove_same rfl (by simp))
  · cases h

/-! ## Moves of the read task -/

/-- The read task has a SYN_STREAM to decide or a frame to route. -/
def ReadTask.holdsFrame : ReadTask H → Bool
  | .loadLast _ | .loadGoneAway _ | .register _ | .storeLast _ _ | .lookup _ | .forward _ _ => true
  | .reading | .inUse _ | .respond _ | .resolvePing _ | .storeGoneAway | .goAwayClose
  | .lockStreams | .sweep _ | .finalClose | .finished | .dead => false

/-- The read task holds no frame, and not the lock of the `StreamInUse` branch. -/
def ReadTask.isPlain : ReadTask H → Bool
  | .inUse _ => false
  | t => !t.holdsFrame

theorem ReadTask.holdsFrame_of_isPlain {t : ReadTask H} (h : t.isPlain = true) :
    t.holdsFrame = false := by
  cases t with
  | inUse _ => cases h
  | _ => exact (Bool.not_eq_true' _).mp h

/-- The read loop is still running. -/
def ReadTask.inLoop : ReadTask H → Bool
  | .lockStreams | .sweep _ | .finalClose | .finished | .dead => false
  | _ => true

/-- The frames that are routed to a stream that is there. -/
def isRoutable : Frame H → Bool
  | .synReply _ | .rstStream _ | .headers _ | .data _ => true
  | _ => false

/-- What the read task is about to send to the peer. -/
def ReadTask.answer : ReadTask H → Option (Frame H)
  | .respond f => some f
  | .inUse f => some (rstFor f .streamInUse)
  | _ => none

theorem ReadTask.holdsFrame_of_answer {t : ReadTask H} {f : Frame H} (h : t.answer = some f) :
    t.holdsFrame = false := by
  cases t with
  | respond _ | inUse _ => rfl
  | _ => cases h

/-- What a remote close does not change in a stream. -/
def Stream.ownSide (st : Stream H) : UInt32 × Bool × List Bytes :=
  (st.streamId, st.localFinSent, st.dataQueue)

/-- What a step of the read task keeps that decides and routes nothing. -/
structure Still (s s' : State H) : Prop where
  streams : s'.streams = s.streams
  last : s'.lastClientStreamId = s.lastClientStreamId
  workers : s'.workers = s.workers
  handed : s'.handed = s.handed
  calls : s'.calls = s.calls
  closes : s'.closes = s.closes
  ownSide : s'.objs.map Stream.ownSide = s.objs.map Stream.ownSide
  gone : s.goneAway = true → s'.goneAway = true
  channel : s'.writeChannel = s.writeChannel

theorem Still.ids {s s' : State H} (h : Still s s') : s'.ids = s.ids := by
  have hfst := congrArg (List.map Prod.fst) h.ownSide
  rwa [List.map_map, List.map_map] at hfst

/-- A step of the read task. -/
inductive ReadMove (s : State H) : State H → List (Event H) → Prop where
  /-- it goes on with a PING, a GOAWAY or the teardown, or ends -/
  | plain {s' : State H} (still : Still s s') (before : s.readTask.holdsFrame = false)
      (next : s'.readTask.isPlain = true)
      (loop : s'.readTask.inLoop = true → s.readTask.inLoop = true ∧ s'.objs = s.objs)
      (mute : s.readTask.answer = none ∧ s'.readTask.answer = none) : ReadMove s s' []
  /-- it sends an answer, unless the channel is closed -/
  | answer (f : Frame H) (c : Channel H) (es : List (Event H)) (pc : s.readTask.answer = some f)
      (channel : c.isOpen = s.writeChannel.isOpen)
      (events : es = [] ∧ s.writeChannel.isOpen = false ∨ es = [.enqueued .readTask f]) :
      ReadMove s { s with writeChannel := c, readTask := .reading } es
  /-- the id of a SYN_STREAM is not higher than the last -/
  | stale (f : SynStreamFrame H) (pc : s.readTask = .loadLast f)
      (le : f.streamId ≤ s.lastClientStreamId) :
      ReadMove s { s with readTask := .respond (rstFor f .protocolError) }
        [.rejected f .protocolError]
  /-- it is higher -/
  | checked (f : SynStreamFrame H) (pc : s.readTask = .loadLast f)
      (lt : s.lastClientStreamId < f.streamId) :
      ReadMove s { s with readTask := .loadGoneAway f } []
  /-- a GOAWAY has been sent or received -/
  | refused (f : SynStreamFrame H) (pc : s.readTask = .loadGoneAway f)
      (gone : s.goneAway = true) :
      ReadMove s { s with readTask := .respond (rstFor f .refusedStream) }
        [.rejected f .refusedStream]
  /-- none has -/
  | passed (f : SynStreamFrame H) (pc : s.readTask = .loadGoneAway f) (here : s.goneAway = false) :
      ReadMove s { s with readTask := .register f } []
  | taken (f : SynStreamFrame H) (pc : s.readTask = .register f) (mem : f.streamId ∈ s.streams) :
      ReadMove s { s with readTask := .inUse f } [.rejected f .streamInUse]
  | accept (f : SynStreamFrame H) (pc : s.readTask = .register f)
      (notMem : f.streamId ∉ s.streams) :
      ReadMove s { s with
        objs := s.objs ++ [Stream.new f.streamId f.headers f.priority]
        streams := s.streams.insert f.streamId s.objs.length
        readTask := .storeLast f s.objs.length } [.accepted s.objs.length f]
  | publish (f : SynStreamFrame H) (o : Nat) (pc : s.readTask = .storeLast f o) :
      ReadMove s { s with
        lastClientStreamId := f.streamId
        readTask := .forward o (.synStream f) } []
  | found (f : Frame H) (o : Nat) (pc : s.readTask = .lookup f)
      (hit : s.streams.lookup f.target = some o) :
      ReadMove s { s with readTask := .forward o f } [.lookedUp f (some o)]
  | missed (f : Frame H) (pc : s.readTask = .lookup f)
      (miss : s.streams.lookup f.target = none) :
      ReadMove s { s with readTask := missing f } [.lookedUp f none]
  | deliver (o : Nat) (f : Frame H) (pc : s.readTask = .forward o f) {w : Worker H}
      (worker : w = { s.workers (workerIdx f.target) with
        queue := (s.workers (workerIdx f.target)).queue ++ [{ frame := f, stream := o }] }) :
      ReadMove s { s with
        readTask := .reading
        workers := Function.update s.workers (workerIdx f.target) w } [.forwarded o f]

theorem missing_isPlain (f : Frame H) : (missing f).isPlain = true := by
  cases f with
  | _ => rfl

theorem answer_quiet {f : Frame H} {es : List (Event H)} {p : Prop}
    (h : es = [] ∧ p ∨ es = [.enqueued .readTask f]) : ∀ e ∈ es, e.isQuiet = true := by
  rintro e he
  rcases h with ⟨rfl, -⟩ | rfl
  · cases he
  · rw [List.mem_singleton.mp he]
    rfl

/-- A send of the read task whose result is ignored. -/
theorem readMove_of_send {s s' : State H} {f : Frame H} {es : List (Event H)}
    (hpc : s.readTask.answer = some f)
    (h : (s.sendIgnoring .readTask f).map (thenRead .reading) = some (s', es)) :
    ReadMove s s' es := by
  obtain ⟨⟨s₁, es₁⟩, hsend, hr⟩ := Option.map_eq_some_iff.mp h
  obtain ⟨c, rfl, hopen, hes⟩ := sendIgnoring_eq hsend
  cases hr
  exact .answer f c es₁ hpc hopen hes

/-- A step that changes no stream, and where the read task decides nothing. -/
theorem readMove_plain {s s' : State H} (hstill : Still s s') (hobjs : s'.objs = s.objs)
    (hbefore : s.readTask.isPlain = true ∧ s.readTask.inLoop = true ∧ s.readTask.answer = none)
    (hnext : s'.readTask.isPlain = true ∧ s'.readTask.answer = none) : ReadMove s s' [] :=
  .plain hstill (ReadTask.holdsFrame_of_isPlain hbefore.1) hnext.1 (fun _ => ⟨hbefore.2.1, hobjs⟩)
    ⟨hbefore.2.2, hnext.2⟩

/-- What one operation of the read task comes to. -/
inductive TaskMove (s : State H) (pick : Nat) : State H → List (Event H) → Prop where
  /-- it decides a SYN_STREAM or routes a frame -/
  | routes {s' : State H} {es : List (Event H)} (holds : s.readTask.holdsFrame = true)
      (move : ReadMove s s' es) : TaskMove s pick s' es
  | inUse (f : SynStreamFrame H) {s' : State H} {es : List (Event H)} (pc : s.readTask = .inUse f)
      (send : (s.sendIgnoring .readTask (rstFor f .streamInUse)).map (thenRead .reading) =
        some (s', es)) : TaskMove s pick s' es
  | responds (f : Frame H) {s' : State H} {es : List (Event H)} (pc : s.readTask = .respond f)
      (send : (s.sendIgnoring .readTask f).map (thenRead .reading) = some (s', es)) :
      TaskMove s pick s' es
  | resolves (id : UInt32) (pc : s.readTask = .resolvePing id) :
      TaskMove s pick { s.signalPing id .fired with readTask := .reading } []
  | goesAway (pc : s.readTask = .storeGoneAway) :
      TaskMove s pick { s with goneAway := true, readTask := .goAwayClose } []
  | closes (pc : s.readTask = .goAwayClose) :
      TaskMove s pick { s with closed := true, readTask := .lockStreams } []
  | locks (pc : s.readTask = .lockStreams) :
      TaskMove s pick { s with readTask := .sweep (s.streams.entries.map Sigma.snd) } []
  | sweeps (rest : List Nat) (o : Nat) (pc : s.readTask = .sweep rest)
      (get : rest[pick]? = some o) :
      TaskMove s pick { s with
        objs := s.objs.modify o Stream.closeRemote
        readTask := .sweep (rest.eraseIdx pick) } []
  | swept (pc : s.readTask = .sweep []) : TaskMove s pick { s with readTask := .finalClose } []
  | ends (pc : s.readTask = .finalClose) :
      TaskMove s pick { s with closed := true, readTask := .finished } []

theorem task_step {s s' : State H} {pick : Nat} {es : List (Event H)}
    (h : s.readStep pick = some (s', es)) : TaskMove s pick s' es := by
  unfold State.readStep at h
  cases hpc : s.readTask with
  | reading | finished | dead =>
      rw [hpc] at h
      cases h
  | loadLast f =>
      rw [hpc] at h
      simp only [] at h
      refine .routes (by rw [hpc]; rfl) ?_
      split at h
      · rename_i hle
        cases h
        exact .stale f hpc hle
      · rename_i hlt
        cases h
        exact .checked f hpc (UInt32.not_le.mp hlt)
  | loadGoneAway f =>
      rw [hpc] at h
      simp only [] at h
      refine .routes (by rw [hpc]; rfl) ?_
      split at h
      · rename_i hgone
        cases h
        exact .refused f hpc hgone
      · rename_i hhere
        cases h
        exact .passed f hpc (eq_false_of_ne_true hhere)
  | register f =>
      rw [hpc] at h
      simp only [State.register] at h
      refine .routes (by rw [hpc]; rfl) ?_
      split at h
      · rename_i hmem
        cases h
        exact .taken f hpc hmem
      · rename_i hmem
        cases h
        exact .accept f hpc hmem
  | storeLast f o =>
      rw [hpc] at h
      cases h
      exact .routes (by rw [hpc]; rfl) (.publish f o hpc)
  | lookup f =>
      rw [hpc] at h
      simp only [State.lookup] at h
      refine .routes (by rw [hpc]; rfl) ?_
      split at h
      · rename_i o hit
        cases h
        exact .found f o hpc hit
      · rename_i hmiss
        cases h
        exact .missed f hpc hmiss
  | forward o f =>
      rw [hpc] at h
      simp only [State.forward] at h
      split at h
      · cases h
        exact .routes (by rw [hpc]; rfl) (.deliver o f hpc rfl)
      · cases h
  | inUse f =>
      rw [hpc] at h
      exact .inUse f hpc h
  | respond f =>
      rw [hpc] at h
      exact .responds f hpc h
  | resolvePing id' =>
      rw [hpc] at h
      cases h
      exact .resolves id' hpc
  | storeGoneAway =>
      rw [hpc] at h
      cases h
      exact .goesAway hpc
  | goAwayClose =>
      rw [hpc] at h
      cases h
      exact .closes hpc
  | lockStreams =>
      rw [hpc] at h
      cases h
      exact .locks hpc
  | sweep rest =>
      rw [hpc] at h
      simp only [] at h
      split at h
      · rename_i o hget
        cases h
        exact .sweeps rest o hpc hget
      · split at h
        · rename_i hempty
          cases h
          rw [hempty] at hpc
          exact .swept hpc
        · cases h
  | finalClose =>
      rw [hpc] at h
      cases h
      exact .ends hpc

theorem readStep_move {s s' : State H} {pick : Nat} {es : List (Event H)}
    (h : s.readStep pick = some (s', es)) : ReadMove s s' es := by
  cases task_step h with
  | routes _ move => exact move
  | inUse f pc send | responds f pc send => exact readMove_of_send (by rw [pc]; rfl) send
  | resolves id' pc =>
      obtain ⟨pingMap, pings, heq⟩ := signalPing_eq s id' .fired
      rw [heq]
      exact readMove_plain ⟨rfl, rfl, rfl, rfl, rfl, rfl, rfl, id, rfl⟩ rfl
        (by rw [pc]; exact ⟨rfl, rfl, rfl⟩) ⟨rfl, rfl⟩
  | goesAway pc =>
      exact readMove_plain ⟨rfl, rfl, rfl, rfl, rfl, rfl, rfl, fun _ => rfl, rfl⟩ rfl
        (by rw [pc]; exact ⟨rfl, rfl, rfl⟩) ⟨rfl, rfl⟩
  | closes pc =>
      exact readMove_plain ⟨rfl, rfl, rfl, rfl, rfl, rfl, rfl, id, rfl⟩ rfl
        (by rw [pc]; exact ⟨rfl, rfl, rfl⟩) ⟨rfl, rfl⟩
  | sweeps rest o pc get =>
      have hown : (s.objs.modify o Stream.closeRemote).map Stream.ownSide =
          s.objs.map Stream.ownSide := map_modify_eq (f := Stream.closeRemote) (fun _ => rfl) _ _
      exact .plain ⟨rfl, rfl, rfl, rfl, rfl, rfl, hown, id, rfl⟩ (by rw [pc]; rfl) rfl
        (by simp [ReadTask.inLoop]) ⟨by rw [pc]; rfl, rfl⟩
  | locks pc | swept pc | ends pc =>
      exact .plain ⟨rfl, rfl, rfl, rfl, rfl, rfl, rfl, id, rfl⟩ (by rw [pc]; rfl) rfl
        (by simp [ReadTask.inLoop]) ⟨by rw [pc]; rfl, rfl⟩

/-- A frame that has been read is a SYN_STREAM to check, a frame to route, or
neither. -/
theorem dispatch_cases (f : Frame H) :
    (dispatch f).isPlain = true ∧ (dispatch f).inLoop = true ∨
    (∃ g, f = .synStream g ∧ g.streamId % 2 = 1 ∧ dispatch f = .loadLast g) ∨
    (isRoutable f = true ∧ dispatch f = .lookup f) := by
  cases f with
  | synStream g =>
      by_cases hid : g.streamId = 0 ∨ g.streamId % 2 = 0
      · have hnext : dispatch (.synStream g) = .respond (rstFor g .protocolError) := if_pos hid
        rw [hnext]
        exact .inl ⟨rfl, rfl⟩
      · have hodd : g.streamId % 2 = 1 := by grind
        exact .inr (.inl ⟨g, rfl, hodd, if_neg hid⟩)
  | synReply _ | rstStream _ | headers _ | data _ => exact .inr (.inr ⟨rfl, rfl⟩)
  | ping p =>
      refine .inl ?_
      simp only [dispatch]
      split
      · exact ⟨rfl, rfl⟩
      · exact ⟨rfl, rfl⟩
  | settings _ | goAway _ | windowUpdate _ => exact .inl ⟨rfl, rfl⟩

theorem mem_rejectedAtOnce {e : Event H} {f : Frame H} (h : e ∈ rejectedAtOnce f) :
    ∃ g, f = .synStream g ∧ (g.streamId = 0 ∨ g.streamId % 2 = 0) ∧
      e = .rejected g .protocolError := by
  cases f with
  | synStream g =>
      simp only [rejectedAtOnce] at h
      split at h
      · rename_i hid
        exact ⟨g, rfl, hid, List.mem_singleton.mp h⟩
      · cases h
  | _ => cases h

/-- What is rejected at once adds only to a log of rejections. -/
theorem flatMap_rejectedAtOnce {β : Type} (pick : Event H → List β)
    (hpick : ∀ g status, pick (.rejected g status) = []) (f : Frame H) :
    (rejectedAtOnce f).flatMap pick = [] := by
  refine List.flatMap_eq_nil_iff.mpr fun e he => ?_
  obtain ⟨g, -, -, rfl⟩ := mem_rejectedAtOnce he
  exact hpick g .protocolError

/-! ## Moves of a worker -/

/-- A worker has one operation less to do. -/
def State.setTodo (s : State H) (i : Fin nWorkers) (rest : List WorkerOp) : State H :=
  { s with workers := Function.update s.workers i { s.workers i with todo := rest } }

theorem State.modifyStream_ids (s : State H) (o : Nat) {g : Stream H → Stream H}
    (hg : ∀ st, (g st).streamId = st.streamId) : (s.modifyStream o g).ids = s.ids :=
  map_modify_eq hg _ _

/-- A step of worker `i`. -/
inductive WorkerMove (s : State H) (i : Fin nWorkers) : State H → List (Event H) → Prop where
  | take (m : WorkerMsg H) (rest : List (WorkerMsg H)) (idle : (s.workers i).todo = [])
      (queue : (s.workers i).queue = m :: rest) {w : Worker H}
      (worker : w = { queue := rest, stream := m.stream, todo := workerOps m.frame }) :
      WorkerMove s i { s with workers := Function.update s.workers i w }
        [.applied m.stream m.frame]
  | spawn (rest : List WorkerOp) (todo : (s.workers i).todo = .spawnHandler :: rest) :
      WorkerMove s i { s.setTodo i rest with handed := s.handed ++ [(s.workers i).stream] }
        [.worked (s.workers i).stream .spawnHandler]
  | push (data : Bytes) (rest : List WorkerOp) (st : Stream H)
      (todo : (s.workers i).todo = .pushData data :: rest)
      (obj : s.objs[(s.workers i).stream]? = some st) :
      WorkerMove s i
        ((s.setTodo i rest).modifyStream (s.workers i).stream fun st => st.pushData data)
        [.worked (s.workers i).stream (.pushData data),
          .pushed (s.workers i).stream data (decide (st.dataQueue.length < dataCapacity))]
  | close (rest : List WorkerOp) (todo : (s.workers i).todo = .closeRemote :: rest) :
      WorkerMove s i ((s.setTodo i rest).modifyStream (s.workers i).stream Stream.closeRemote)
        [.worked (s.workers i).stream .closeRemote]
  | remove (rest : List WorkerOp) (st : Stream H)
      (todo : (s.workers i).todo = .removeStream :: rest)
      (obj : s.objs[(s.workers i).stream]? = some st) (unlocked : s.streamsLocked = false) :
      WorkerMove s i { s.setTodo i rest with streams := s.streams.erase st.streamId }
        [.worked (s.workers i).stream .removeStream,
          .removed (s.workers i).stream (s.streams.lookup st.streamId)]
  | reply (op : WorkerOp) (rest : List WorkerOp) (g : Stream H → Stream H)
      (todo : (s.workers i).todo = op :: rest) (isReply : op = .storeReplied ∨ op = .notifyWaiters)
      (side : ∀ st, (g st).peerSide = st.peerSide)
      (queue : ∀ st, (g st).dataQueue = st.dataQueue)
      (fin : ∀ st, (g st).localFinSent = st.localFinSent) :
      WorkerMove s i ((s.setTodo i rest).modifyStream (s.workers i).stream g)
        [.worked (s.workers i).stream op]

/-- No worker changes the id of a stream. -/
theorem WorkerMove.ids {s s' : State H} {i : Fin nWorkers} {es : List (Event H)}
    (h : WorkerMove s i s' es) : s'.ids = s.ids := by
  cases h with
  | push data rest st todo obj =>
      refine State.modifyStream_ids _ _ fun st => ?_
      unfold Stream.pushData
      split
      · rfl
      · rfl
  | close rest todo => exact State.modifyStream_ids _ _ fun _ => rfl
  | reply op rest g todo isReply side queue fin =>
      exact State.modifyStream_ids _ _ fun st => congrArg Prod.fst (side st)
  | _ => rfl

theorem WorkerMove.readTask {s s' : State H} {i : Fin nWorkers} {es : List (Event H)}
    (h : WorkerMove s i s' es) : s'.readTask = s.readTask := by
  cases h with
  | _ => rfl

theorem workerRecv_move {s s' : State H} {i : Fin nWorkers} {es : List (Event H)}
    (h : s.workerRecv i = some (s', es)) : WorkerMove s i s' es := by
  unfold State.workerRecv at h
  split at h
  · rename_i m rest hidle hqueue
    cases h
    exact .take m rest hidle hqueue rfl
  · cases h

theorem workerRun_move {s s' : State H} {i : Fin nWorkers} {es : List (Event H)}
    (h : s.workerRun i = some (s', es)) : WorkerMove s i s' es := by
  unfold State.workerRun at h
  simp only [] at h
  split at h
  · cases h
  · rename_i op rest htodo
    obtain ⟨⟨s₁, es₁⟩, hop, hr⟩ := Option.map_eq_some_iff.mp h
    cases hr
    cases op with
    | spawnHandler =>
        cases hop
        exact .spawn rest htodo
    | pushData data =>
        simp only [State.runOp] at hop
        split at hop
        · cases hop
        · rename_i st hst
          cases hop
          exact .push data rest st htodo hst
    | closeRemote =>
        cases hop
        exact .close rest htodo
    | removeStream =>
        simp only [State.runOp] at hop
        split at hop
        · cases hop
        · rename_i st hst
          split at hop
          · cases hop
          · rename_i hlock
            cases hop
            exact .remove rest st htodo hst (eq_false_of_ne_true hlock)
    | storeReplied =>
        cases hop
        exact .reply .storeReplied rest _ htodo (.inl rfl) (fun _ => rfl) (fun _ => rfl)
          fun _ => rfl
    | notifyWaiters =>
        cases hop
        exact .reply .notifyWaiters rest _ htodo (.inr rfl) (fun _ => rfl) (fun _ => rfl)
          fun _ => rfl

/-! ## All steps -/

/-- What a step of the connection does. -/
inductive StepKind (s : State H) (a : Action H) (s' : State H) (es : List (Event H)) : Prop where
  | aside (h : Aside s s' es) (kind : AsideKind s a s' es)
  | read (f : Frame H) (pc : s.readTask = .reading)
      (state : s' = { s with
        readTask := dispatch f
        initialWindowSize := windowAfter s.initialWindowSize f })
      (events : es = .read f :: rejectedAtOnce f)
  | move (h : ReadMove s s' es)
  | worker (i : Fin nWorkers) (h : WorkerMove s i s' es)
      (action : a = .workerRun i ∨ (s.workers i).todo = [])

theorem readEnds_move {s s' : State H} {next : ReadTask H} {es : List (Event H)}
    (hnext : next.isPlain = true ∧ next.answer = none) (h : s.readEnds next = some (s', es)) :
    ReadMove s s' es := by
  unfold State.readEnds at h
  split at h
  · rename_i hpc
    cases h
    exact readMove_plain ⟨rfl, rfl, rfl, rfl, rfl, rfl, rfl, id, rfl⟩ rfl
      (by rw [hpc]; exact ⟨rfl, rfl, rfl⟩) hnext
  · cases h

/-- The action is none of the read task and none of the workers. -/
def Action.isAside : Action H → Bool
  | .read _ | .readFail | .readPanic | .readTask _ | .workerRecv _ | .workerRun _ => false
  | _ => true

theorem aside_step {s s' : State H} {a : Action H} {es : List (Event H)} (ha : a.isAside = true)
    (h : s.step a = some (s', es)) : AsideKind s a s' es := by
  cases a with
  | read _ | readFail | readPanic | readTask _ | workerRecv _ | workerRun _ => cases ha
  | write =>
      simp only [State.step, State.write] at h
      split at h
      · cases h
      · split at h
        · cases h
          exact .apart (apart_mute rfl rfl rfl rfl rfl rfl rfl id id
            (closeMove_same rfl (by simp)))
        · cases h
  | writeFail =>
      cases h
      exact .apart (apart_mute rfl rfl rfl rfl rfl rfl rfl id
        (fun hopen => absurd hopen Bool.false_ne_true) (closeMove_same rfl (by simp)))
  | invoke o r =>
      simp only [State.step, State.invoke] at h
      split at h
      · rename_i hmem
        cases h
        exact .invoke o r rfl hmem rfl rfl
      · cases h
  | call k alt => exact stepCall_kind h
  | cancel k => exact cancelCall_kind h
  | closeStep k => exact .apart (stepClose_apart h)
  | closeTimeout k =>
      simp only [State.step, State.timeoutClose] at h
      split at h
      · cases h
        exact .apart (apart_mute rfl rfl rfl rfl rfl rfl rfl id id
          (.same (announces_of_set rfl) (by simp)))
      · cases h
  | pingStep k => exact .apart (stepPing_apart h)
  | pingTimeout k =>
      simp only [State.step, State.timeoutPing] at h
      split at h
      · cases h
        exact .apart (apart_mute rfl rfl rfl rfl rfl rfl rfl id id
          (closeMove_same rfl (by simp)))
      · cases h
  | close =>
      cases h
      refine .apart (apart_mute rfl rfl rfl rfl rfl rfl rfl id id
        (.same (fun c hc hann => ?_) (by simp)))
      rcases List.mem_append.mp hc with hmem | hmem
      · exact hmem
      · cases List.mem_singleton.mp hmem
        cases hann
  | ping =>
      cases h
      exact .apart (apart_mute rfl rfl rfl rfl rfl rfl rfl id id
        (closeMove_same rfl (by simp)))

theorem step_kind {s s' : State H} {a : Action H} {es : List (Event H)}
    (h : s.step a = some (s', es)) : StepKind s a s' es := by
  cases a with
  | read f =>
      simp only [State.step, State.readFrame] at h
      split at h
      · rename_i hpc
        cases h
        exact .read f hpc rfl rfl
      · cases h
  | readFail | readPanic => exact .move (readEnds_move ⟨rfl, rfl⟩ h)
  | readTask pick => exact .move (readStep_move h)
  | workerRecv i =>
      have hmove := workerRecv_move h
      refine .worker i hmove (.inr ?_)
      simp only [State.step, State.workerRecv] at h
      split at h
      · assumption
      · cases h
  | workerRun i => exact .worker i (workerRun_move h) (.inl rfl)
  | _ =>
      have hkind := aside_step rfl h
      exact .aside hkind.aside hkind

end SpdyStream.Session
