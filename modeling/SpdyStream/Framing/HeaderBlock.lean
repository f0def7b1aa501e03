/-
  Framing/HeaderBlock.lean --- the uncompressed header block (`encode_headers`
  and `parse_header_block` of `framer.rs`).

  The parser is transcribed as the source has it: positions into the block,
  `usize` arithmetic of a given width, and indexing that panics out of bounds.
  Beside it stands the grammar it implements, as a reader that consumes a list
  (`takeEntry`, `scan`) and knows neither positions nor a map.

  `headerLoop_eq` connects the two: on a block whose length leaves room in a
  `usize`, the loop appends exactly the pairs that `scan` finds, returns the
  error `scan` ends in, and panics exactly when those pairs are too many for a
  header map.  Every later statement about the parser is read off from it.
-/
import SpdyStream.Framing.Http

set_option autoImplicit false

namespace SpdyStream.Framing

open SpdyStream.Foundation

variable {X : Http}

/-- `Err(Error::Protocol(..))`. -/
def protocolError {α : Type} (message : String) : Except Fault α :=
  .error (.error (.protocol message))

/-! ## Slices -/

/-- `xs[i]`. -/
def index (xs : Bytes) (i : Nat) : Except Fault UInt8 :=
  match xs[i]? with
  | some b => .ok b
  | none => .error .panic

/-- `&xs[a..b]`. -/
def slice (xs : Bytes) (a b : Nat) : Except Fault Bytes :=
  if a ≤ b ∧ b ≤ xs.length then .ok ((xs.take b).drop a) else .error .panic

/-- `u32::from_be_bytes([xs[i], xs[i + 1], xs[i + 2], xs[i + 3]])`. -/
def beWord (xs : Bytes) (i : Nat) : Except Fault UInt32 := do
  let a ← index xs i
  let b ← index xs (i + 1)
  let c ← index xs (i + 2)
  let d ← index xs (i + 3)
  return fromBeBytes32 a b c d

/-! ## Encoding -/

/-- What `and_modify` and `or_insert_with` leave in the entry of a name: values
are joined with NUL. -/
def joinValue (val : Bytes) : Option Bytes → Bytes
  | some existing => existing ++ [0] ++ val
  | none => val

/-- The `BTreeMap` of `encode_headers`. -/
def headerEntries (headers : HeaderMap X) : SortedMap Bytes Bytes :=
  SortedMap.ofPairs joinValue (headers.iter.map fun p => (p.1.asStr, p.2.asBytes))

/-- One entry of the block. -/
def encodeEntry (e : Bytes × Bytes) : Bytes :=
  toBeBytes32 (UInt32.ofNat e.1.length) ++ e.1 ++
    (toBeBytes32 (UInt32.ofNat e.2.length) ++ e.2)

/-- `encode_headers`. -/
def encodeHeaders (headers : HeaderMap X) : Bytes :=
  toBeBytes32 (UInt32.ofNat (headerEntries headers).entries.length) ++
    (headerEntries headers).entries.flatMap encodeEntry

/-! ## Parsing -/

/-- A length of the block: the check `pos + 4 > raw.len()`, the word at `pos`,
and `pos += 4`. -/
def lengthAt (width : Nat) (message : String) (raw : Bytes) (pos : Nat) :
    Except Fault (UInt32 × Nat) :=
  if usizeAdd width pos 4 > raw.length then protocolError message
  else do
    let len ← beWord raw pos
    return (len, usizeAdd width pos 4)

/-- A run of bytes of the block: the check `pos + len > raw.len()`, the slice,
and `pos += len`. -/
def bytesAt (width : Nat) (message : String) (len : UInt32) (raw : Bytes) (pos : Nat) :
    Except Fault (Bytes × Nat) :=
  if usizeAdd width pos len.toNat > raw.length then protocolError message
  else do
    let bytes ← slice raw pos (usizeAdd width pos len.toNat)
    return (bytes, usizeAdd width pos len.toNat)

/-- The reads of one round of the loop: the name bytes and the value bytes at
`pos`, and the position after them. -/
def headerEntry (width : Nat) (raw : Bytes) (pos : Nat) :
    Except Fault ((Bytes × Bytes) × Nat) := do
  let (nameLen, pos) ← lengthAt width "header name length truncated" raw pos
  let (nameBytes, pos) ← bytesAt width "header name truncated" nameLen raw pos
  let (valLen, pos) ← lengthAt width "header value length truncated" raw pos
  let (valBytes, pos) ← bytesAt width "header value truncated" valLen raw pos
  return ((nameBytes, valBytes), pos)

/-- The inner loop: every part of a NUL-joined value is appended. -/
def appendParts (map : HeaderMap X) (name : HeaderName X) :
    List Bytes → Except Fault (HeaderMap X)
  | [] => .ok map
  | part :: parts => do
      let value ← HeaderValue.fromBytes X part
      let map ← map.append name value
      appendParts map name parts

/-- The loop over the entries, `n` of them still to read. -/
def headerLoop (width : Nat) (raw : Bytes) :
    Nat → Nat → HeaderMap X → Except Fault (HeaderMap X × Nat)
  | 0, pos, map => .ok (map, pos)
  | n + 1, pos, map => do
      let ((nameBytes, valBytes), pos) ← headerEntry width raw pos
      let name ← HeaderName.fromBytes X nameBytes
      let map ← appendParts map name (valBytes.splitOn 0)
      headerLoop width raw n pos map

/-- `parse_header_block`. -/
def parseHeaderBlock (X : Http) (width : Nat) (raw : Bytes) : Except Fault (HeaderMap X) :=
  if raw.length < 4 then protocolError "header block too short"
  else do
    let count := (← beWord raw 0).toNat
    let (map, _) ← headerLoop width raw count 4 (HeaderMap.new X)
    return map

/-! ## The grammar

The same reads on a list that is consumed from the front. -/

/-- A length, and the bytes after it. -/
def takeLength (message : String) : Bytes → Except Error (UInt32 × Bytes)
  | a :: b :: c :: d :: rest => .ok (fromBeBytes32 a b c d, rest)
  | _ => .error (.protocol message)

/-- A run of `len` bytes, and the bytes after it. -/
def takeBytes (message : String) (len : UInt32) (bs : Bytes) : Except Error (Bytes × Bytes) :=
  if len.toNat ≤ bs.length then .ok (bs.take len.toNat, bs.drop len.toNat)
  else .error (.protocol message)

/-- The name bytes and value bytes of an entry, and the bytes after it. -/
def takeEntry (bs : Bytes) : Except Error ((Bytes × Bytes) × Bytes) := do
  let (nameLen, bs) ← takeLength "header name length truncated" bs
  let (nameBytes, bs) ← takeBytes "header name truncated" nameLen bs
  let (valLen, bs) ← takeLength "header value length truncated" bs
  let (valBytes, bs) ← takeBytes "header value truncated" valLen bs
  return ((nameBytes, valBytes), bs)

/-- What a reader of pairs has found, and how it ended: with the bytes that are
left or with an error. -/
structure Scan (X : Http) (α : Type) where
  pairs : List (HeaderName X × HeaderValue X)
  result : Except Error α

/-- A scan that fails at once. -/
def Scan.fail {α : Type} (e : Error) : Scan X α := ⟨[], .error e⟩

/-- The pairs of `s`, then those of what follows if `s` did not fail. -/
def Scan.andThen {α β : Type} (s : Scan X α) (next : α → Scan X β) : Scan X β :=
  match s.result with
  | .error e => ⟨s.pairs, .error e⟩
  | .ok a => ⟨s.pairs ++ (next a).pairs, (next a).result⟩

/-- The pairs of one value. -/
def scanParts (name : HeaderName X) : List Bytes → Scan X Unit
  | [] => ⟨[], .ok ()⟩
  | part :: parts =>
      if h : X.headerValue part = true then
        Scan.andThen ⟨[(name, ⟨part, h⟩)], .ok ()⟩ fun _ => scanParts name parts
      else .fail (.protocol ("invalid header value: " ++ X.invalidHeaderValue))

/-- The pairs of `n` entries. -/
def scan (X : Http) : Nat → Bytes → Scan X Bytes
  | 0, bs => ⟨[], .ok bs⟩
  | n + 1, bs =>
      match takeEntry bs with
      | .error e => .fail e
      | .ok ((nameBytes, valBytes), rest) =>
          match HeaderName.fromBytes X nameBytes with
          | .error _ => .fail (.protocol ("invalid header name: " ++ X.invalidHeaderName))
          | .ok name =>
              (scanParts name (valBytes.splitOn 0)).andThen fun _ => scan X n rest

/-! ## The reads follow the grammar -/

/-- A position of `raw` stands for the bytes from there on; a result of the
grammar stands for a result of the parser. -/
def atPosition {α : Type} (raw : Bytes) : Except Error (α × Bytes) → Except Fault (α × Nat)
  | .ok (a, rest) => .ok (a, raw.length - rest.length)
  | .error e => .error (.error e)

/-- `p` reads at a position of `raw` what `g` reads from the bytes there. -/
def Follows {α : Type} (raw : Bytes) (p : Nat → Except Fault (α × Nat))
    (g : Bytes → Except Error (α × Bytes)) : Prop :=
  ∀ pos, pos ≤ raw.length →
    p pos = atPosition raw (g (raw.drop pos)) ∧
      ∀ a rest, g (raw.drop pos) = .ok (a, rest) → rest <:+ raw

/-- Reads in sequence follow the grammars in sequence. -/
theorem Follows.bind {α β : Type} {raw : Bytes} {p : Nat → Except Fault (α × Nat)}
    {g : Bytes → Except Error (α × Bytes)} {q : α → Nat → Except Fault (β × Nat)}
    {h : α → Bytes → Except Error (β × Bytes)} (hp : Follows raw p g)
    (hq : ∀ a, Follows raw (q a) (h a)) :
    Follows raw (fun pos => do let (a, pos) ← p pos; q a pos)
      (fun bs => do let (a, bs) ← g bs; h a bs) := by
  intro pos hpos
  obtain ⟨hpeq, hpsuf⟩ := hp pos hpos
  cases hg : g (raw.drop pos) with
  | error e =>
      rw [hg] at hpeq
      simp only [hpeq, hg]
      exact ⟨rfl, fun _ _ h => by cases h⟩
  | ok r =>
      obtain ⟨a, rest⟩ := r
      rw [hg] at hpeq
      have hsuf : rest <:+ raw := hpsuf a rest hg
      have hdrop : raw.drop (raw.length - rest.length) = rest :=
        (List.suffix_iff_eq_drop.mp hsuf).symm
      obtain ⟨hqeq, hqsuf⟩ := hq a (raw.length - rest.length) (Nat.sub_le _ _)
      rw [hdrop] at hqeq hqsuf
      simp only [hpeq, hg]
      exact ⟨hqeq, hqsuf⟩

theorem Follows.pure {α : Type} {raw : Bytes} (a : α) :
    Follows raw (fun pos => .ok (a, pos)) (fun bs => .ok (a, bs)) := by
  intro pos hpos
  constructor
  · simp only [atPosition, List.length_drop]
    rw [Nat.sub_sub_self hpos]
  · intro a' rest h
    obtain ⟨-, rfl⟩ := Prod.mk.inj (Except.ok.inj h)
    exact List.drop_suffix _ _

theorem index_eq {xs : Bytes} {i : Nat} {b : UInt8} (h : xs[i]? = some b) :
    index xs i = .ok b := by
  simp [index, h]

/-- The word at a position with four bytes behind it. -/
theorem beWord_eq {raw : Bytes} {pos : Nat} {a b c d : UInt8} (rest : Bytes)
    (h : raw.drop pos = a :: b :: c :: d :: rest) :
    beWord raw pos = .ok (fromBeBytes32 a b c d) := by
  have hget : ∀ i, raw[pos + i]? = (a :: b :: c :: d :: rest)[i]? := by
    intro i
    rw [← h, List.getElem?_drop]
  have h0 : index raw pos = .ok a := index_eq (hget 0)
  have h1 : index raw (pos + 1) = .ok b := index_eq (hget 1)
  have h2 : index raw (pos + 2) = .ok c := index_eq (hget 2)
  have h3 : index raw (pos + 3) = .ok d := index_eq (hget 3)
  rw [beWord, h0, h1, h2, h3]
  rfl

/-- There are four ways to have less than four bytes. -/
theorem short_cases {bs : Bytes} (h : bs.length < 4) :
    bs = [] ∨ (∃ a, bs = [a]) ∨ (∃ a b, bs = [a, b]) ∨ ∃ a b c, bs = [a, b, c] := by
  rcases bs with _ | ⟨a, _ | ⟨b, _ | ⟨c, _ | ⟨d, rest⟩⟩⟩⟩
  · exact .inl rfl
  · exact .inr (.inl ⟨a, rfl⟩)
  · exact .inr (.inr (.inl ⟨a, b, rfl⟩))
  · exact .inr (.inr (.inr ⟨a, b, c, rfl⟩))
  · simp only [List.length_cons] at h
    omega

theorem takeLength_eq_error {message : String} {bs : Bytes} (h : bs.length < 4) :
    takeLength message bs = .error (.protocol message) := by
  rcases short_cases h with rfl | ⟨a, rfl⟩ | ⟨a, b, rfl⟩ | ⟨a, b, c, rfl⟩
  · rfl
  · rfl
  · rfl
  · rfl

/-- Four bytes or more begin with four bytes. -/
theorem exists_four (bs : Bytes) (h : 4 ≤ bs.length) :
    ∃ a b c d rest, bs = a :: b :: c :: d :: rest := by
  rcases bs with _ | ⟨a, _ | ⟨b, _ | ⟨c, _ | ⟨d, rest⟩⟩⟩⟩
  · simp at h
  · simp at h
  · simp at h
  · simp at h
  · exact ⟨a, b, c, d, rest, rfl⟩

variable {width : Nat} {raw : Bytes}

/-- Where `pos + 4` does not wrap, a length is read as the grammar reads it. -/
theorem lengthAt_eq {pos : Nat} (hpos : pos ≤ raw.length) (hfit : pos + 4 < 2 ^ width)
    (message : String) :
    lengthAt width message raw pos = atPosition raw (takeLength message (raw.drop pos)) := by
  have hadd : usizeAdd width pos 4 = pos + 4 := usizeAdd_of_lt hfit
  by_cases hlen : (raw.drop pos).length < 4
  · have htrunc : pos + 4 > raw.length := by
      rw [List.length_drop] at hlen
      omega
    rw [takeLength_eq_error hlen, lengthAt, hadd, if_pos htrunc]
    rfl
  · obtain ⟨a, b, c, d, rest, hdrop⟩ := exists_four _ (Nat.not_lt.mp hlen)
    have hroom : raw.length = pos + 4 + rest.length := by
      have := congrArg List.length hdrop
      simp only [List.length_drop, List.length_cons] at this
      omega
    have hpos' : raw.length - rest.length = pos + 4 := by omega
    rw [lengthAt, hadd, if_neg (by omega), beWord_eq rest hdrop, hdrop]
    show Except.ok (fromBeBytes32 a b c d, pos + 4) = _
    simp only [takeLength, atPosition, hpos']

theorem takeLength_suffix {message : String} {bs rest : Bytes} {len : UInt32}
    (h : takeLength message bs = .ok (len, rest)) : rest <:+ bs := by
  by_cases hlen : bs.length < 4
  · rw [takeLength_eq_error hlen] at h
    cases h
  · obtain ⟨a, b, c, d, tail, rfl⟩ := exists_four _ (Nat.not_lt.mp hlen)
    obtain ⟨-, rfl⟩ := Prod.mk.inj (Except.ok.inj h)
    exact List.suffix_append [a, b, c, d] tail

theorem lengthAt_follows (hw : raw.length + 2 ^ 32 ≤ 2 ^ width) (message : String) :
    Follows raw (lengthAt width message raw) (takeLength message) := fun pos hpos =>
  ⟨lengthAt_eq hpos (by omega) message, fun _ _ hr =>
    (takeLength_suffix hr).trans (List.drop_suffix _ _)⟩

/-- Where `pos + len` does not wrap, a run of bytes is read as the grammar reads it. -/
theorem bytesAt_eq {pos : Nat} (hpos : pos ≤ raw.length) {len : UInt32}
    (hfit : pos + len.toNat < 2 ^ width) (message : String) :
    bytesAt width message len raw pos = atPosition raw (takeBytes message len (raw.drop pos)) := by
  have hadd : usizeAdd width pos len.toNat = pos + len.toNat := usizeAdd_of_lt hfit
  rw [bytesAt, hadd, takeBytes, List.length_drop]
  by_cases hlen : len.toNat ≤ raw.length - pos
  · rw [if_neg (by omega), if_pos hlen, slice, if_pos (by omega)]
    have hslice : (raw.take (pos + len.toNat)).drop pos = (raw.drop pos).take len.toNat := by
      rw [List.drop_take]
      congr 1
      omega
    have hpos' : raw.length - ((raw.drop pos).drop len.toNat).length = pos + len.toNat := by
      simp only [List.length_drop]
      omega
    show Except.ok ((raw.take (pos + len.toNat)).drop pos, pos + len.toNat) = _
    simp only [atPosition, hslice, hpos']
  · rw [if_pos (by omega), if_neg hlen]
    rfl

theorem takeBytes_suffix {message : String} {bs taken rest : Bytes} {len : UInt32}
    (h : takeBytes message len bs = .ok (taken, rest)) : rest <:+ bs := by
  rw [takeBytes] at h
  split at h
  · obtain ⟨-, rfl⟩ := Prod.mk.inj (Except.ok.inj h)
    exact List.drop_suffix _ _
  · cases h

theorem bytesAt_follows (hw : raw.length + 2 ^ 32 ≤ 2 ^ width) (message : String)
    (len : UInt32) : Follows raw (bytesAt width message len raw) (takeBytes message len) :=
  fun pos hpos =>
    have hlen := len.toNat_lt
    ⟨bytesAt_eq hpos (by omega) message, fun _ _ hr =>
      (takeBytes_suffix hr).trans (List.drop_suffix _ _)⟩

/-- One round of the loop reads an entry of the grammar. -/
theorem headerEntry_follows (hw : raw.length + 2 ^ 32 ≤ 2 ^ width) :
    Follows raw (headerEntry width raw) takeEntry :=
  (lengthAt_follows hw "header name length truncated").bind fun nameLen =>
    (bytesAt_follows hw "header name truncated" nameLen).bind fun nameBytes =>
      (lengthAt_follows hw "header value length truncated").bind fun valLen =>
        (bytesAt_follows hw "header value truncated" valLen).bind fun valBytes =>
          Follows.pure (nameBytes, valBytes)

/-! ## The loop follows the grammar -/

/-- Append the pairs of a scan to a map, then end as the scan ends.  A map that
would exceed the maximum size panics before any error behind it is seen. -/
def appendScan {α : Type} (map : HeaderMap X) (s : Scan X α) : Except Fault (HeaderMap X × α) :=
  if h : pairsSize X (map.iter ++ s.pairs) ≤ maxHeaderMapSize then
    match s.result with
    | .ok a => .ok (⟨map.iter ++ s.pairs, h⟩, a)
    | .error e => .error (.error e)
  else .error .panic

/-- The map that holds the pairs of a scan as well. -/
def HeaderMap.extend {α : Type} (map : HeaderMap X) (s : Scan X α)
    (h : pairsSize X (map.iter ++ s.pairs) ≤ maxHeaderMapSize) : HeaderMap X :=
  ⟨map.iter ++ s.pairs, h⟩

theorem appendScan_ok {α : Type} {map : HeaderMap X} {s : Scan X α} {a : α}
    (hs : s.result = .ok a) (h : pairsSize X (map.iter ++ s.pairs) ≤ maxHeaderMapSize) :
    appendScan map s = .ok (map.extend s h, a) := by
  rw [appendScan, dif_pos h, hs]
  rfl

theorem appendScan_error {α : Type} {map : HeaderMap X} {s : Scan X α} {e : Error}
    (hs : s.result = .error e) (h : pairsSize X (map.iter ++ s.pairs) ≤ maxHeaderMapSize) :
    appendScan map s = .error (.error e) := by
  rw [appendScan, dif_pos h, hs]

theorem appendScan_panic {α : Type} {map : HeaderMap X} {s : Scan X α}
    (h : ¬ pairsSize X (map.iter ++ s.pairs) ≤ maxHeaderMapSize) :
    appendScan map s = .error .panic := by
  rw [appendScan, dif_neg h]

/-- A map has room for no pairs at all. -/
theorem HeaderMap.size_append_nil (map : HeaderMap X) :
    pairsSize X (map.iter ++ []) ≤ maxHeaderMapSize := by
  rw [List.append_nil]
  exact map.size_le

theorem appendScan_fail {α : Type} (map : HeaderMap X) (e : Error) :
    appendScan map (Scan.fail e : Scan X α) = .error (.error e) :=
  appendScan_error (s := Scan.fail e) rfl map.size_append_nil

theorem appendScan_nil {α : Type} (map : HeaderMap X) (a : α) :
    appendScan map (⟨[], .ok a⟩ : Scan X α) = .ok (map, a) := by
  rw [appendScan_ok (s := ⟨[], .ok a⟩) rfl map.size_append_nil]
  simp only [HeaderMap.extend, List.append_nil]

/-- One pair appended is the crate's `append`. -/
theorem appendScan_singleton (map : HeaderMap X) (name : HeaderName X) (value : HeaderValue X) :
    appendScan map ⟨[(name, value)], .ok ()⟩ = (map.append name value).map fun m => (m, ()) := by
  by_cases h : pairsSize X (map.iter ++ [(name, value)]) ≤ maxHeaderMapSize
  · rw [appendScan_ok (s := ⟨[(name, value)], .ok ()⟩) rfl h, HeaderMap.append, dif_pos h]
    rfl
  · rw [appendScan_panic (s := ⟨[(name, value)], .ok ()⟩) h, HeaderMap.append, dif_neg h]
    rfl

/-- Appending the pairs of two scans in a row is appending those of both. -/
theorem appendScan_andThen {α β : Type} (map : HeaderMap X) (s : Scan X α)
    (next : α → Scan X β) :
    appendScan map (s.andThen next) =
      (appendScan map s).bind fun r => appendScan r.1 (next r.2) := by
  by_cases h : pairsSize X (map.iter ++ s.pairs) ≤ maxHeaderMapSize
  · cases hs : s.result with
    | error e =>
        rw [appendScan_error hs h]
        have hthen : s.andThen next = ⟨s.pairs, .error e⟩ := by rw [Scan.andThen, hs]
        rw [hthen, appendScan_error (s := ⟨s.pairs, .error e⟩) rfl h]
        rfl
    | ok a =>
        rw [appendScan_ok hs h]
        have hthen : s.andThen next = ⟨s.pairs ++ (next a).pairs, (next a).result⟩ := by
          rw [Scan.andThen, hs]
        have hassoc : map.iter ++ (s.pairs ++ (next a).pairs) =
            (map.extend s h).iter ++ (next a).pairs := (List.append_assoc _ _ _).symm
        rw [hthen]
        simp only [Except.bind, appendScan, hassoc]
  · -- The limit is passed already: more pairs do not bring it back.
    have hmore : ¬ pairsSize X (map.iter ++ (s.andThen next).pairs) ≤ maxHeaderMapSize := by
      intro hle
      refine h (le_trans (pairsSize_mono ?_) hle)
      rw [List.prefix_append_right_inj, Scan.andThen]
      split
      · exact List.prefix_rfl
      · exact List.prefix_append _ _
    rw [appendScan_panic h, appendScan_panic hmore]
    rfl

/-- The inner loop appends what the grammar finds in the parts. -/
theorem appendParts_eq (name : HeaderName X) (parts : List Bytes) :
    ∀ map : HeaderMap X,
      appendParts map name parts = (appendScan map (scanParts name parts)).map Prod.fst := by
  induction parts with
  | nil =>
      intro map
      simp only [appendParts, scanParts, appendScan_nil, Except.map]
  | cons part parts ih =>
      intro map
      by_cases hv : X.headerValue part = true
      · simp only [appendParts, scanParts, HeaderValue.fromBytes_of_accepted hv]
        rw [dif_pos hv, appendScan_andThen, appendScan_singleton]
        simp only [bind, Except.bind]
        cases map.append name ⟨part, hv⟩ with
        | error e => rfl
        | ok m => exact ih m
      · simp only [appendParts, scanParts, HeaderValue.fromBytes_of_not hv]
        rw [dif_neg hv, appendScan_fail]
        rfl

theorem bind_ok {ε α β : Type} {x : Except ε α} {f : α → Except ε β} {b : β}
    (h : (x >>= f) = .ok b) : ∃ a, x = .ok a ∧ f a = .ok b := by
  cases x with
  | error e => exact absurd h (by simp [bind, Except.bind])
  | ok a => exact ⟨a, rfl, h⟩

theorem takeEntry_suffix {bs rest : Bytes} {e : Bytes × Bytes}
    (h : takeEntry bs = .ok (e, rest)) : rest <:+ bs := by
  obtain ⟨⟨nameLen, bs₁⟩, h₁, h⟩ := bind_ok h
  obtain ⟨⟨nameBytes, bs₂⟩, h₂, h⟩ := bind_ok h
  obtain ⟨⟨valLen, bs₃⟩, h₃, h⟩ := bind_ok h
  obtain ⟨⟨valBytes, bs₄⟩, h₄, h⟩ := bind_ok h
  cases h
  exact (takeBytes_suffix h₄).trans ((takeLength_suffix h₃).trans
    ((takeBytes_suffix h₂).trans (takeLength_suffix h₁)))

/-- A rest of a block is what is behind its position. -/
theorem drop_of_suffix {rest : Bytes} (h : rest <:+ raw) :
    raw.drop (raw.length - rest.length) = rest :=
  (List.suffix_iff_eq_drop.mp h).symm

/-- The loop follows the grammar as long as its rounds do: where `P` holds, which is
handed on from round to round, it appends the pairs that the grammar finds in the entries
from there on, ends where the grammar ends, and panics exactly when the pairs are too
many. -/
theorem headerLoop_follows {P : Nat → Bytes → HeaderMap X → Prop}
    (hentry : ∀ {n bs map}, P (n + 1) bs map → bs <:+ raw →
      headerEntry width raw (raw.length - bs.length) = atPosition raw (takeEntry bs))
    (hnext : ∀ {n bs rest map map' nameBytes valBytes name}, P (n + 1) bs map →
      takeEntry bs = .ok ((nameBytes, valBytes), rest) →
      HeaderName.fromBytes X nameBytes = .ok name →
      appendParts map name (valBytes.splitOn 0) = .ok map' → P n rest map') (n : Nat) :
    ∀ (bs : Bytes) (map : HeaderMap X), P n bs map → bs <:+ raw →
      headerLoop width raw n (raw.length - bs.length) map =
        (appendScan map (scan X n bs)).map fun r => (r.1, raw.length - r.2.length) := by
  induction n with
  | zero =>
      intro bs map _ _
      simp only [headerLoop, scan, appendScan_nil, Except.map]
  | succ n ih =>
      intro bs map hP hsuf
      simp only [headerLoop, scan, hentry hP hsuf]
      cases ht : takeEntry bs with
      | error e =>
          simp only [atPosition]
          rw [appendScan_fail]
          rfl
      | ok r =>
          obtain ⟨⟨nameBytes, valBytes⟩, rest⟩ := r
          simp only [atPosition, bind, Except.bind]
          cases hn : HeaderName.fromBytes X nameBytes with
          | error f =>
              rw [HeaderName.fromBytes_error hn, appendScan_fail]
              rfl
          | ok name =>
              have hparts := appendParts_eq name (valBytes.splitOn 0) map
              simp only [hparts]
              rw [appendScan_andThen]
              cases happ : appendScan map (scanParts name (valBytes.splitOn 0)) with
              | error e => rfl
              | ok m =>
                  rw [happ] at hparts
                  simp only [Except.map, Except.bind]
                  rw [ih rest m.1 (hnext hP ht hn hparts) ((takeEntry_suffix ht).trans hsuf)]
                  rfl

/-- **The loop of `parse_header_block` follows the grammar** from any position of the
block, where `usize` has room for a length behind the block. -/
theorem headerLoop_eq (hw : raw.length + 2 ^ 32 ≤ 2 ^ width) (n pos : Nat) (map : HeaderMap X)
    (hpos : pos ≤ raw.length) :
    headerLoop width raw n pos map =
      (appendScan map (scan X n (raw.drop pos))).map
        fun r => (r.1, raw.length - r.2.length) := by
  have hloop : headerLoop width raw n (raw.length - (raw.drop pos).length) map = _ :=
    headerLoop_follows (P := fun _ _ _ => True) (fun {_ bs _} _ hsuf => by
      have hentry := (headerEntry_follows hw (raw.length - bs.length) (Nat.sub_le _ _)).1
      rwa [drop_of_suffix hsuf] at hentry)
    (fun _ _ _ _ => trivial) n (raw.drop pos) map trivial (List.drop_suffix _ _)
  rwa [List.length_drop, Nat.sub_sub_self hpos] at hloop

/-- What `parse_header_block` makes of a block of four bytes or more. -/
theorem parseHeaderBlock_eq {a b c d : UInt8} {body : Bytes}
    (hw : (a :: b :: c :: d :: body).length + 2 ^ 32 ≤ 2 ^ width) :
    parseHeaderBlock X width (a :: b :: c :: d :: body) =
      (appendScan (HeaderMap.new X) (scan X (fromBeBytes32 a b c d).toNat body)).map Prod.fst := by
  have hword : beWord (a :: b :: c :: d :: body) 0 = .ok (fromBeBytes32 a b c d) :=
    beWord_eq body List.drop_zero
  have hlen : ¬ (a :: b :: c :: d :: body).length < 4 := by
    simp only [List.length_cons]
    omega
  have hloop := headerLoop_eq (X := X) hw (fromBeBytes32 a b c d).toNat 4 (HeaderMap.new X)
    (by simp only [List.length_cons]; omega)
  have hdrop : (a :: b :: c :: d :: body).drop 4 = body := rfl
  rw [hdrop] at hloop
  rw [parseHeaderBlock, if_neg hlen, hword]
  simp only [bind, Except.bind, hloop]
  cases appendScan (HeaderMap.new X) (scan X (fromBeBytes32 a b c d).toNat body) with
  | error e => rfl
  | ok r => rfl

end SpdyStream.Framing
