/-
  Session/ReadOrder.lean --- the bytes that a stream gives out, in order.

  `poll_read` keeps the remainder of a payload aside, and `read_data` does not look at
  it.  As long as `read_data` takes nothing over a remainder, what was returned, the
  remainder and the queue are what was enqueued (`bytes_kept`).

  How long the remainder is follows from the calls alone: it is what the buffers of
  `poll_read` have had no room for (`owed_eq`).  So the order is kept exactly where no
  `read_data` reads while they are owed something (`ReadsApart`).
-/
import SpdyStream.Session.Handle

set_option autoImplicit false

namespace SpdyStream.Session

open SpdyStream.Foundation
open SpdyStream.Framing

variable {H : Type}

/-! ## read_data -/

/-- The payload that the next operation of a call takes from the data channel. -/
def CallPc.takes (alt : Bool) (st : Stream H) : CallPc H → Option Bytes
  | .readTry | .readDrain => st.dataQueue.head?
  | .readSelect => if alt then none else st.dataQueue.head?
  | _ => none

theorem tryThen_payload (blocked : Bool) (c : Channel H) (st : Stream H) (f : Frame H)
    (next : CallPc H) :
    (tryThen blocked c st f next).effects.flatMap CallEffect.payload = [] := by
  rcases tryThen_cases blocked c st f next with ⟨r, hr⟩ | ⟨-, heffects, -, -⟩
  · rw [hr]
    rfl
  · rw [heffects]
    rfl

theorem callStep_takes {alt : Bool} {pc : CallPc H} {st : Stream H} {c : Channel H}
    {out : CallOutcome H} (h : callStep alt pc st c = some out) :
    out.effects.flatMap CallEffect.payload = (pc.takes alt st).toList := by
  cases call_step h with
  | replySend _ _ send | writeSend _ _ send | resetSend _ send =>
      rcases sendThen_cases send with ⟨-, rfl⟩ | ⟨-, heffects, -, -⟩
      · rfl
      · rw [heffects]
        rfl
  | pollSend _ | shutdownSend => exact tryThen_payload alt c st _ _
  | tryTakes _ _ queue | drainTakes _ _ queue =>
      simp [receive, CallEffect.payload, CallPc.takes, queue]
  | tryEmpty queue | drainEnds queue => simp [readReturn, CallPc.takes, queue]
  | selectTakes _ _ branch queue =>
      simp [receive, CallEffect.payload, CallPc.takes, branch, queue]
  | selectCloses branch _ => simp [CallPc.takes, branch]
  | _ => rfl

/-- The step makes `read_data` take a payload that has bytes. -/
def Reader.readsBytes (r : Reader H) : ReadAction H → Bool
  | .call j alt _ =>
      match r.calls j with
      | none => false
      | some pc => !((pc.takes alt r.stream).getD []).isEmpty
  | _ => false

/-- A `read_data` that takes a payload with bytes finds no remainder held. -/
def Reader.keepsOrder (r : Reader H) (a : ReadAction H) : Bool :=
  r.unread.isNone || !r.readsBytes a

/-! ## The remainder -/

/-- `poll_read` has found no remainder. -/
def PollPc.isPast : PollPc → Bool
  | .lock _ | .recv _ | .borrow _ => true
  | .idle | .unread _ => false

/-- A remainder has bytes, and none is held when `poll_read` looks at the channel. -/
structure RemainderKept (r : Reader H) : Prop where
  bytes : r.unread ≠ some []
  past : r.poll.isPast = true → r.unread = none

theorem drop_min_ne_nil {bytes : Bytes} {n : Nat} (h : min bytes.length n < bytes.length) :
    bytes.drop (min bytes.length n) ≠ [] := by
  intro heq
  have hlength := congrArg List.length heq
  rw [List.length_drop, List.length_nil] at hlength
  omega

theorem remainder_step {r r' : Reader H} {a : ReadAction H} {es : List ReadEvent}
    (hs : r.step a = some (r', es)) (h : RemainderKept r) : RemainderKept r' := by
  cases reader_step hs with
  | work op action state events =>
      obtain ⟨-, -, hunread, hpoll, -⟩ := r.work_eq op
      refine ⟨?_, fun hpast => ?_⟩
      · rw [state, hunread]
        exact h.bytes
      · rw [state, hunread]
        refine h.past ?_
        rw [← hpoll, ← state]
        exact hpast
  | invoke j q action state events | call j _ _ _ _ action get outcome state events
  | cancel j _ _ _ action get outcome state events =>
      rw [state]
      exact ⟨h.bytes, h.past⟩
  | poll move =>
      cases move with
      | begin n action pc state events =>
          rw [state]
          exact ⟨h.bytes, fun hpast => absurd hpast Bool.false_ne_true⟩
      | remainder n bytes pc get state events =>
          rw [state]
          refine ⟨?_, fun hpast => absurd hpast Bool.false_ne_true⟩
          dsimp only
          split
          · simp
          · rename_i hne
            have hlt := Nat.lt_of_le_of_ne (Nat.min_le_left bytes.length n) hne
            exact fun heq => drop_min_ne_nil hlt (Option.some.inj heq)
      | takes n data rest action pc queue state events =>
          rw [state]
          refine ⟨?_, fun hpast => absurd hpast Bool.false_ne_true⟩
          dsimp only
          split
          · rename_i hlt
            exact fun heq => drop_min_ne_nil hlt (Option.some.inj heq)
          · exact h.bytes
      | nothingLeft n pc get state events =>
          rw [state]
          exact ⟨h.bytes, fun _ => get⟩
      | locks n pc state events | fails n _ pc state events | empty n pc queue state events =>
          rw [state]
          exact ⟨h.bytes, fun _ => h.past (by rw [pc]; rfl)⟩
      | refused n pc state events | ends n pc closed state events | waits n pc here state events =>
          rw [state]
          exact ⟨h.bytes, fun hpast => absurd hpast Bool.false_ne_true⟩

variable {st₀ : Stream H} {guard : List ReadEvent → Reader H → ReadAction H → Prop}
  {evs : List ReadEvent} {r : Reader H}

theorem remainder_kept (h : (reader st₀).Run guard evs r) : RemainderKept r := by
  refine h.invariant (I := fun _ r => RemainderKept r) ?_ ?_
  · refine ⟨fun hbytes => ?_, fun hpast => absurd hpast Bool.false_ne_true⟩
    cases hbytes
  · intro evs es r r' a _ _ hs ih
    exact remainder_step hs ih

/-! ## Conservation -/

/-- The bytes that were enqueued and not returned: the remainder, and the payloads in
the channel. -/
def Reader.held (r : Reader H) : Bytes := r.unread.getD [] ++ r.stream.dataQueue.flatten

theorem work_held (r : Reader H) (op : WorkerOp) :
    r.held ++ (r.work op).2.flatMap ReadEvent.enqueued =
      (r.work op).2.flatMap ReadEvent.returned ++ (r.work op).1.held := by
  cases op with
  | pushData data =>
      simp only [Reader.work]
      split
      · rename_i hroom
        simp [Reader.held, Reader.notify, Stream.pushData, hroom, ReadEvent.enqueued,
          ReadEvent.returned]
      · simp
  | closeRemote =>
      simp [Reader.work, Reader.held, Stream.closeRemote, ReadEvent.enqueued, ReadEvent.returned]
  | spawnHandler | removeStream | storeReplied | notifyWaiters =>
      simp [Reader.work, Reader.held, WorkerOp.onStream]

theorem callEvent_bytes (effects : List (CallEffect H)) :
    (effects.flatMap Reader.callEvent).flatMap ReadEvent.enqueued = [] ∧
      (effects.flatMap Reader.callEvent).flatMap ReadEvent.returned =
        (effects.flatMap CallEffect.payload).flatten := by
  constructor
  · refine List.flatMap_eq_nil_iff.mpr fun e he => ?_
    obtain ⟨eff, -, he⟩ := List.mem_flatMap.mp he
    cases eff with
    | enqueued f => cases he
    | delivered data =>
        rw [List.mem_singleton.mp he]
        rfl
  · induction effects with
    | nil => rfl
    | cons eff effects ih =>
        rw [List.flatMap_cons, List.flatMap_append, ih, List.flatMap_cons, List.flatten_append]
        cases eff with
        | enqueued f => rfl
        | delivered data => simp [Reader.callEvent, ReadEvent.returned, CallEffect.payload]

/-- What a step takes in goes behind what is held, and what it gives out is its
front. -/
theorem held_step {r' : Reader H} {a : ReadAction H} {es : List ReadEvent}
    (hkept : RemainderKept r) (hs : r.step a = some (r', es)) (horder : r.keepsOrder a = true) :
    r.held ++ es.flatMap ReadEvent.enqueued = es.flatMap ReadEvent.returned ++ r'.held := by
  cases reader_step hs with
  | work op action state events =>
      rw [state, events]
      exact work_held r op
  | invoke j q action state events =>
      rw [state, events]
      simp [Reader.held, Reader.setCall]
  | cancel j pc pc' st action get outcome state events =>
      have hqueue := (callCancel_keeps outcome).2
      rw [state, events]
      simp [Reader.held, Reader.setCall, hqueue]
  | call j alt c pc out action get outcome state events =>
      have hqueue := (callStep_keeps outcome).payloads
      obtain ⟨henqueued, hreturned⟩ := callEvent_bytes out.effects
      rw [callStep_takes outcome] at hqueue hreturned
      rw [events, henqueued, hreturned, state]
      -- either no remainder is held, or no byte is taken
      have hor : r.unread = none ∨ (pc.takes alt r.stream).toList.flatten = [] := by
        rcases Bool.or_eq_true_iff.mp horder with hnone | hempty
        · exact .inl (Option.isNone_iff_eq_none.mp hnone)
        · right
          simp only [action, Reader.readsBytes, get] at hempty
          cases htakes : pc.takes alt r.stream with
          | none => rfl
          | some data =>
              rw [htakes] at hempty
              simpa using hempty
      simp only [Reader.held, Reader.setCall, hqueue, List.flatten_append]
      rcases hor with hnone | hempty
      · simp [hnone]
      · simp [hempty]
  | poll move =>
      cases move with
      | begin n action pc state events | nothingLeft n pc get state events
      | locks n pc state events | fails n _ pc state events | empty n pc queue state events =>
          rw [state, events]
          simp [Reader.held]
      | refused n pc state events =>
          rw [state, events]
          simp [Reader.held, ReadEvent.enqueued, ReadEvent.returned]
      | remainder n bytes pc get state events =>
          rw [state, events]
          simp only [Reader.held, get, List.flatMap_singleton, ReadEvent.enqueued,
            ReadEvent.returned, Option.getD_some, List.append_nil]
          split
          · rename_i hall
            rw [hall, List.take_length]
            rfl
          · rw [Option.getD_some, ← List.append_assoc, List.take_append_drop]
      | takes n data rest action pc queue state events =>
          have hnone := hkept.past (by rw [pc]; rfl)
          rw [state, events]
          simp only [Reader.held, hnone, queue, List.flatMap_singleton, ReadEvent.enqueued,
            ReadEvent.returned, Option.getD_none, List.append_nil, List.nil_append,
            List.flatten_cons]
          split
          · rw [Option.getD_some, ← List.append_assoc, List.take_append_drop]
          · rename_i hge
            have hall : min data.length n = data.length :=
              Nat.le_antisymm (Nat.min_le_left _ _) (Nat.not_lt.mp hge)
            rw [hall, List.take_length]
            rfl
      | ends n pc closed state events | waits n pc here state events =>
          rw [state, events]
          simp [Reader.held, Reader.unlock, ReadEvent.enqueued, ReadEvent.returned]

/-- If every step keeps the order, the bytes enqueued are those returned and those
held. -/
theorem bytes_kept (h : (reader st₀).Run guard evs r)
    (horder : ∀ evs r a, (reader st₀).Run guard evs r → guard evs r a → r.keepsOrder a = true) :
    evs.flatMap ReadEvent.enqueued = evs.flatMap ReadEvent.returned ++ r.held := by
  refine h.conserved Reader.held rfl ?_
  intro evs es r r' a hrun hguard hs
  exact held_step (remainder_kept hrun) hs (horder evs r a hrun hguard)

/-! ## Both ways to read -/

/-- A step of a handle that was taken. -/
abbrev TakenAccess (H : Type) : Type := Machine.Taken (Handle H) (HandleAction H) ReadEvent

/-- The bytes that the buffers of `poll_read` had no room for: it takes a payload that is
longer than its buffer, and later calls have room for the rest. -/
def owedAfter (owed : Nat) (t : TakenAccess H) : Nat :=
  match t.before.reader.poll, t.events with
  | .recv _, [.filled n _] => (t.before.reader.stream.dataQueue.headD []).length - n
  | .unread _, [.filled n _] => owed - n
  | _, _ => owed

/-- The same after all steps of a history. -/
def owed (hist : List (TakenAccess H)) : Nat := hist.foldl owedAfter 0

/-- The step makes `read_data` take a payload that has bytes. -/
def Handle.readsBytes (x : Handle H) : HandleAction H → Bool
  | .stream a => x.reader.readsBytes a
  | .release => false

/-- Where `read_data` takes a payload that has bytes, the buffers of `poll_read` have had
room for all that it took. -/
def ReadsApart (hist : List (TakenAccess H)) : Prop :=
  ∀ pre t post, hist = pre ++ t :: post → t.before.readsBytes t.action = true → owed pre = 0

instance (hist : List (TakenAccess H)) : Decidable (ReadsApart hist) :=
  decidable_of_iff' _ Machine.forall_split_iff

/-- The bytes come out as they were enqueued, the remainder next and then the payloads
in the channel. -/
structure ReadsInOrder (hist : List (TakenAccess H)) (x : Handle H) : Prop where
  /-- `read_data` returns no bytes over a remainder -/
  behind : ∀ t ∈ hist, ∀ data, .delivered data ∈ t.events → data ≠ [] →
    t.before.reader.unread.getD [] = []
  order : (hist.flatMap Machine.Taken.events).flatMap ReadEvent.returned <+:
    (hist.flatMap Machine.Taken.events).flatMap ReadEvent.enqueued
  next : (hist.flatMap Machine.Taken.events).flatMap ReadEvent.enqueued =
    (hist.flatMap Machine.Taken.events).flatMap ReadEvent.returned ++
      (x.reader.unread.getD [] ++ x.reader.stream.dataQueue.flatten)

/-- `poll_read` is not `read_data`. -/
theorem PollMove.delivers {r r' : Reader H} {a : ReadAction H} {es : List ReadEvent}
    (h : PollMove r a r' es) (data : Bytes) : .delivered data ∉ es := by
  cases h with
  | begin _ _ _ _ events | remainder _ _ _ _ _ events | nothingLeft _ _ _ _ events
  | refused _ _ _ events | locks _ _ _ events | fails _ _ _ _ events | takes _ _ _ _ _ _ _ events
  | empty _ _ _ _ events | ends _ _ _ _ events | waits _ _ _ _ events =>
      rw [events]
      simp

theorem mem_deliveredPayload {es : List ReadEvent} {data : Bytes} :
    data ∈ es.flatMap ReadEvent.deliveredPayload ↔ .delivered data ∈ es := by
  rw [List.mem_flatMap]
  constructor
  · rintro ⟨e, he, hdata⟩
    cases e with
    | delivered d =>
        rw [List.mem_singleton.mp hdata]
        exact he
    | _ => cases hdata
  · exact fun he => ⟨_, he, List.mem_singleton.mpr rfl⟩

theorem readsBytes_iff {r' : Reader H} {a : ReadAction H} {es : List ReadEvent}
    (hs : r.step a = some (r', es)) :
    r.readsBytes a = true ↔ ∃ data, .delivered data ∈ es ∧ data ≠ [] := by
  cases reader_step hs with
  | work op action state events =>
      rw [action, events]
      refine iff_of_false Bool.false_ne_true ?_
      rintro ⟨data, hmem, -⟩
      cases op with
      | pushData d =>
          simp only [Reader.work] at hmem
          split at hmem
          · cases List.mem_singleton.mp hmem
          · cases hmem
      | closeRemote => cases List.mem_singleton.mp hmem
      | _ => cases hmem
  | invoke j q action state events | cancel j pc pc' st action get outcome state events =>
      rw [action, events]
      exact iff_of_false Bool.false_ne_true (by simp)
  | poll move action =>
      refine iff_of_false (fun hreads => ?_) ?_
      · cases a with
        | call j alt c => cases action
        | _ => cases hreads
      · rintro ⟨data, hmem, -⟩
        exact move.delivers data hmem
  | call j alt c pc out action get outcome state events =>
      have hmem : ∀ data, .delivered data ∈ es ↔ pc.takes alt r.stream = some data := fun data => by
        rw [← mem_deliveredPayload, events, Reader.callEvent_delivered, callStep_takes outcome,
          Option.mem_toList]
      simp only [action, Reader.readsBytes, get, hmem]
      cases pc.takes alt r.stream with
      | none => simp
      | some data => simp

section

variable {guard : List ReadEvent → Handle H → HandleAction H → Prop} {hist : List (TakenAccess H)}
  {x : Handle H}

theorem owed_concat (hist : List (TakenAccess H)) (t : TakenAccess H) :
    owed (hist ++ [t]) = owedAfter (owed hist) t := by
  rw [owed, List.foldl_append]
  rfl

theorem owedAfter_quiet {t : TakenAccess H} (h : ∀ n data, .filled n data ∉ t.events) (n : Nat) :
    owedAfter n t = n := by
  unfold owedAfter
  split
  · rename_i heq
    exact absurd (by rw [heq]; exact List.mem_singleton_self _) (h _ _)
  · rename_i heq
    exact absurd (by rw [heq]; exact List.mem_singleton_self _) (h _ _)
  · rfl

theorem owed_step {t : TakenAccess H} (hkept : RemainderKept t.before.reader)
    (hs : t.before.step t.action = some (t.after, t.events)) :
    owedAfter (t.before.reader.unread.getD []).length t =
      (t.after.reader.unread.getD []).length := by
  cases handle_step hs with
  | release action state events =>
      rw [state]
      exact owedAfter_quiet (by simp [events]) _
  | stream ra action permitted step state =>
      cases hpoll : ra.isPoll with
      | false =>
          rw [unread_step step hpoll]
          refine owedAfter_quiet (fun n data hmem => ?_) _
          exact Bool.false_ne_true (hpoll.symm.trans (poll_of_filled step hmem))
      | true =>
          cases poll_step step hpoll with
          | begin _ _ _ hstate events | nothingLeft _ _ _ hstate events | locks _ _ hstate events
          | fails _ _ _ hstate events | empty _ _ _ hstate events | refused _ _ hstate events
          | waits _ _ _ hstate events =>
              rw [hstate]
              exact owedAfter_quiet (by simp [events]) _
          | ends n pc closed hstate events =>
              rw [hstate, owedAfter, pc, events]
              rfl
          | remainder n bytes pc get hstate events =>
              simp only [owedAfter, pc, events, hstate, get, Option.getD_some]
              split
              · rw [Option.getD_none, List.length_nil]
                omega
              · rw [Option.getD_some, List.length_drop]
                omega
          | takes n data rest haction pc queue hstate events =>
              have hnone := hkept.past (by rw [pc]; rfl)
              simp only [owedAfter, pc, events, queue, hstate, hnone, List.headD_cons]
              split
              · rw [Option.getD_some, List.length_drop]
                omega
              · rw [Option.getD_none, List.length_nil]
                omega

/-- What `poll_read` holds is what its buffers had no room for. -/
theorem owed_eq (h : (handle st₀).History guard hist x) :
    owed hist = (x.reader.unread.getD []).length := by
  refine h.invariant (I := fun hist x => owed hist = (x.reader.unread.getD []).length) rfl ?_
  intro hist t hhist _ hs ih
  rw [owed_concat, ih]
  exact owed_step (remainder_kept (reader_of_handle hhist.run)) hs

theorem unread_of_owed (h : (handle st₀).History guard hist x) (howed : owed hist = 0) :
    x.reader.unread = none := by
  have hbytes := (remainder_kept (reader_of_handle h.run)).bytes
  have hlength := (owed_eq h).symm.trans howed
  cases hunread : x.reader.unread with
  | none => rfl
  | some bytes =>
      rw [hunread] at hbytes hlength
      exact absurd (congrArg some (List.eq_nil_of_length_eq_zero hlength)) hbytes

/-- What a handle takes in goes behind what its stream holds, and what it gives out is the
front of that. -/
theorem handle_held {t : TakenAccess H} (hkept : RemainderKept t.before.reader)
    (horder : t.before.readsBytes t.action = true → t.before.reader.unread = none)
    (hs : t.before.step t.action = some (t.after, t.events)) :
    t.before.reader.held ++ t.events.flatMap ReadEvent.enqueued =
      t.events.flatMap ReadEvent.returned ++ t.after.reader.held := by
  cases handle_step hs with
  | release action state events =>
      rw [state, events]
      simp
  | stream ra action permitted step state =>
      refine held_step hkept step ?_
      cases hreads : t.before.reader.readsBytes ra with
      | false => simp [Reader.keepsOrder, hreads]
      | true =>
          rw [action] at horder
          simp [Reader.keepsOrder, horder hreads]

/-- Where `read_data` reads apart the bytes enqueued are those returned and those held. -/
theorem held_history (h : (handle st₀).History guard hist x) (hapart : ReadsApart hist) :
    (hist.flatMap Machine.Taken.events).flatMap ReadEvent.enqueued =
      (hist.flatMap Machine.Taken.events).flatMap ReadEvent.returned ++ x.reader.held := by
  refine h.invariant (I := fun hist x => ReadsApart hist →
    (hist.flatMap Machine.Taken.events).flatMap ReadEvent.enqueued =
      (hist.flatMap Machine.Taken.events).flatMap ReadEvent.returned ++ x.reader.held)
    (fun _ => rfl) ?_ hapart
  intro hist t hhist _ hs ih hapart
  have hbefore : ReadsApart hist := fun pre u post heq =>
    hapart pre u (post ++ [t]) (by rw [heq]; simp)
  have hone := handle_held (remainder_kept (reader_of_handle hhist.run))
    (fun hreads => unread_of_owed hhist (hapart hist t [] rfl hreads)) hs
  rw [List.flatMap_append, List.flatMap_singleton, List.flatMap_append, List.flatMap_append,
    ih hbefore, List.append_assoc, hone, List.append_assoc]

/-- **Order.**  The bytes that all calls return come in the order in which they were
enqueued, and no `read_data` returns bytes that were enqueued behind some that `poll_read`
holds, if and only if no `read_data` takes a payload with bytes between a `poll_read`
whose buffer is too small for its payload and those that have room for the rest. -/
theorem reads_inOrder (h : (handle st₀).History Machine.free hist x) :
    ReadsInOrder hist x ↔ ReadsApart hist := by
  constructor
  · intro hin pre t post heq hreads
    obtain ⟨hpre, -, hs⟩ := h.split heq
    cases handle_step hs with
    | release action state events =>
        rw [action] at hreads
        cases hreads
    | stream ra action permitted step state =>
        rw [action] at hreads
        obtain ⟨data, hmem, hdata⟩ := (readsBytes_iff step).mp hreads
        have hnone := hin.behind t (by rw [heq]; simp) data hmem hdata
        rw [owed_eq hpre, hnone]
        rfl
  · intro hapart
    have hheld := held_history h hapart
    refine ⟨fun t ht data hmem hdata => ?_, ⟨_, hheld.symm⟩, hheld⟩
    obtain ⟨pre, post, heq⟩ := List.append_of_mem ht
    obtain ⟨hpre, -, hs⟩ := h.split heq
    cases handle_step hs with
    | release action state events =>
        rw [events] at hmem
        cases hmem
    | stream ra action permitted step state =>
        have hreads : t.before.readsBytes t.action = true := by
          rw [action]
          exact (readsBytes_iff step).mpr ⟨data, hmem, hdata⟩
        rw [unread_of_owed hpre (hapart pre t post heq hreads)]
        rfl

end

/-- The calls below find the write channel empty. -/
def emptyChannel : Channel Unit := { queue := [], isOpen := true }

/-- A stream with id 1, where header maps say nothing. -/
def plainStream : Stream Unit := Stream.new 1 () 0

/-- `poll_read` is called and goes `n` steps on. -/
def polls (room n : Nat) : List (ReadAction Unit) :=
  .poll room :: List.replicate n (.pollStep false)

/-- The `j`-th call is a `read_data` that finds a payload. -/
def readsData (j : Nat) : List (ReadAction Unit) :=
  .invoke j .readData :: List.replicate 2 (.call j false emptyChannel)

/-- Two payloads come, the stream is reset, and the connection lets go of it. -/
def pushedAndReset : List (HandleAction Unit) :=
  [.stream (.work (.pushData [1, 2])), .stream (.work (.pushData [3])),
    .stream (.work .closeRemote), .stream (.work .removeStream), .release]

/-- A payload is read by two `poll_read` and the next by `read_data`. -/
theorem reads_inOrder_mixed : ∃ hist x, (handle plainStream).History Machine.free hist x ∧
    (hist.flatMap Machine.Taken.events).flatMap ReadEvent.returned = [1, 2, 3] ∧
      ReadsInOrder hist x := by
  obtain ⟨hist, x, h, hcheck⟩ := Machine.exists_history_of_trace (handle plainStream) Machine.free
    (pushedAndReset ++ (polls 1 3 ++ polls 5 1 ++ readsData 0).map .stream)
    (fun hist _ => decide ((hist.flatMap Machine.Taken.events).flatMap ReadEvent.returned =
      [1, 2, 3] ∧ ReadsApart hist))
    (by decide +kernel)
  obtain ⟨hreturned, hapart⟩ := of_decide_eq_true hcheck
  exact ⟨hist, x, h, hreturned, (reads_inOrder h).mpr hapart⟩

/-- `read_data` overtakes the remainder of the payload before. -/
theorem reads_overtake : ¬ ∀ hist (x : Handle Unit),
    (handle plainStream).History Machine.free hist x → ReadsInOrder hist x := by
  intro hall
  obtain ⟨hist, x, h, hcheck⟩ := Machine.exists_history_of_trace (handle plainStream) Machine.free
    (pushedAndReset ++ (polls 1 3 ++ readsData 0).map .stream)
    (fun hist _ => decide ((hist.flatMap Machine.Taken.events).flatMap ReadEvent.returned = [1, 3] ∧
      (hist.flatMap Machine.Taken.events).flatMap ReadEvent.enqueued = [1, 2, 3]))
    (by decide +kernel)
  obtain ⟨hreturned, henqueued⟩ := of_decide_eq_true hcheck
  have horder := (hall hist x h).order
  rw [hreturned, henqueued] at horder
  exact absurd horder (by decide)

end SpdyStream.Session
