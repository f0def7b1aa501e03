/-
  Framing/HeaderGrammar.lean --- which header blocks `parse_header_block` accepts.

  A block is a count, that many entries, and whatever is behind them
  (`IsBlock`).  The parser accepts a block exactly when the crate accepts every
  name and every part of every value; what it returns has under each name the
  parts of all entries with this name, in their order.
-/
import SpdyStream.Framing.ReadLoop

set_option autoImplicit false

namespace SpdyStream.Framing

open SpdyStream.Foundation

variable {X : Http}

/-! ## The grammar as a relation -/

/-- `raw` is a count, this many entries, and `rest`. -/
def IsBlock (entries : List (Bytes × Bytes)) (rest raw : Bytes) : Prop :=
  entries.length < 2 ^ 32 ∧ (∀ e ∈ entries, e.1.length < 2 ^ 32 ∧ e.2.length < 2 ^ 32) ∧
    raw = toBeBytes32 (UInt32.ofNat entries.length) ++ (entries.flatMap encodeEntry ++ rest)

/-- The crate accepts the name of an entry and every part of its value. -/
def Http.AcceptsEntry (X : Http) (e : Bytes × Bytes) : Prop :=
  (X.headerName e.1).isSome = true ∧ ∀ part ∈ e.2.splitOn 0, X.headerValue part = true

/-- The parts that a block gives to a name: those of all entries whose name is the
name up to case. -/
def partsOf (name : Bytes) (entries : List (Bytes × Bytes)) : List Bytes :=
  (entries.filter fun e => e.1.map toAsciiLowercase = name).flatMap fun e => e.2.splitOn 0

/-! ## Scanning entries -/

theorem Scan.andThen_assoc {α β γ : Type} (s : Scan X α) (f : α → Scan X β) (g : β → Scan X γ) :
    (s.andThen f).andThen g = s.andThen fun a => (f a).andThen g := by
  cases hs : s.result with
  | error e => simp only [Scan.andThen, hs]
  | ok a =>
      simp only [Scan.andThen, hs]
      cases hf : (f a).result with
      | error e => rfl
      | ok b => simp only [List.append_assoc]

/-- The pairs of one entry. -/
def scanEntry (X : Http) (e : Bytes × Bytes) : Scan X Unit :=
  match HeaderName.fromBytes X e.1 with
  | .error _ => .fail (.protocol ("invalid header name: " ++ X.invalidHeaderName))
  | .ok name => scanParts name (e.2.splitOn 0)

/-- The pairs of entries in a row. -/
def scanEntries (X : Http) : List (Bytes × Bytes) → Scan X Unit
  | [] => ⟨[], .ok ()⟩
  | e :: entries => (scanEntry X e).andThen fun _ => scanEntries X entries

/-- What is scanned in the entries of a block does not depend on what is behind
them. -/
theorem scan_entries {entries : List (Bytes × Bytes)}
    (hrange : ∀ e ∈ entries, e.1.length < 2 ^ 32 ∧ e.2.length < 2 ^ 32) (rest : Bytes) :
    scan X entries.length (entries.flatMap encodeEntry ++ rest) =
      (scanEntries X entries).andThen fun _ => ⟨[], .ok rest⟩ := by
  induction entries with
  | nil => rfl
  | cons e entries ih =>
      obtain ⟨hname, hval⟩ := hrange e List.mem_cons_self
      have hrec := ih fun e' he' => hrange e' (List.mem_cons_of_mem _ he')
      rw [List.length_cons, List.flatMap_cons, List.append_assoc, scan,
        takeEntry_encodeEntry hname hval, scanEntries, Scan.andThen_assoc, scanEntry]
      simp only [hrec]
      cases HeaderName.fromBytes X e.1 with
      | error f => rfl
      | ok name => rfl

/-- Entries that are scanned to their end are entries as they are written. -/
theorem entries_of_scan {n : Nat} {bs rest : Bytes} {ps : List (HeaderName X × HeaderValue X)}
    (h : scan X n bs = ⟨ps, .ok rest⟩) :
    ∃ entries : List (Bytes × Bytes), entries.length = n ∧
      (∀ e ∈ entries, e.1.length < 2 ^ 32 ∧ e.2.length < 2 ^ 32) ∧
      bs = entries.flatMap encodeEntry ++ rest := by
  induction n generalizing bs ps with
  | zero =>
      obtain ⟨-, hr⟩ := Scan.mk.inj h
      exact ⟨[], rfl, by simp, Except.ok.inj hr⟩
  | succ n ih =>
      obtain ⟨nameBytes, valBytes, bs', name, vs, qs, ht, -, -, hscan, -⟩ := scan_succ_ok h
      obtain ⟨hlengths, hbs⟩ := takeEntry_ok ht
      obtain ⟨entries, hlen, hrange, hbs'⟩ := ih hscan
      refine ⟨(nameBytes, valBytes) :: entries, by rw [List.length_cons, hlen], ?_, ?_⟩
      · intro e he
        rcases List.mem_cons.mp he with rfl | he
        · exact hlengths
        · exact hrange e he
      · rw [hbs, hbs', List.flatMap_cons, List.append_assoc]

/-- The parts of a value are scanned to their end if the crate accepts them. -/
theorem scanParts_result (name : HeaderName X) (parts : List Bytes) :
    (scanParts name parts).result = .ok () ↔ ∀ part ∈ parts, X.headerValue part = true := by
  induction parts with
  | nil => simp [scanParts]
  | cons part parts ih =>
      rw [scanParts, List.forall_mem_cons]
      by_cases hv : X.headerValue part = true
      · rw [dif_pos hv]
        simpa [Scan.andThen, hv] using ih
      · rw [dif_neg hv]
        simp [Scan.fail, hv]

theorem fromBytes_ok_iff {b : Bytes} :
    (X.headerName b).isSome = true ↔ ∃ name, HeaderName.fromBytes X b = .ok name := by
  unfold HeaderName.fromBytes
  split
  · rename_i n hn
    simp [hn]
  · rename_i hn
    simp [hn]

theorem scanEntry_result (e : Bytes × Bytes) :
    (scanEntry X e).result = .ok () ↔ X.AcceptsEntry e := by
  rw [Http.AcceptsEntry, fromBytes_ok_iff, scanEntry]
  cases hn : HeaderName.fromBytes X e.1 with
  | error f => simp [Scan.fail]
  | ok name => simpa using scanParts_result name (e.2.splitOn 0)

theorem scanEntries_result (entries : List (Bytes × Bytes)) :
    (scanEntries X entries).result = .ok () ↔ ∀ e ∈ entries, X.AcceptsEntry e := by
  induction entries with
  | nil => simp [scanEntries]
  | cons e entries ih =>
      rw [scanEntries, List.forall_mem_cons, ← ih, ← scanEntry_result, Scan.andThen]
      cases hr : (scanEntry X e).result with
      | error f => simp
      | ok u => simp

/-- A name is the name it was read from, in lower case. -/
theorem HeaderName.asStr_fromBytes {b : Bytes} {name : HeaderName X}
    (h : HeaderName.fromBytes X b = .ok name) : name.asStr = b.map toAsciiLowercase := by
  unfold HeaderName.fromBytes at h
  split at h
  · rename_i n hn
    rw [← Except.ok.inj h]
    exact X.headerName_lowercase hn
  · cases h

/-- An accepted entry gives its parts to its own name. -/
theorem valuesOf_scanEntry {e : Bytes × Bytes} (h : (scanEntry X e).result = .ok ())
    (name : HeaderName X) :
    (valuesOf name (scanEntry X e).pairs).map HeaderValue.asBytes = partsOf name.asStr [e] := by
  rw [scanEntry] at h ⊢
  cases hn : HeaderName.fromBytes X e.1 with
  | error f =>
      rw [hn] at h
      cases h
  | ok own =>
      rw [hn] at h
      have hown := HeaderName.asStr_fromBytes hn
      have hscan : scanParts own (e.2.splitOn 0) =
          ⟨(scanParts own (e.2.splitOn 0)).pairs, .ok ()⟩ := congrArg (Scan.mk _) h
      obtain ⟨vs, hparts, hps⟩ := scanParts_ok hscan
      simp only [hps, valuesOf_map_pair, partsOf]
      by_cases hname : own = name
      · subst hname
        simp [← hown, hparts]
      · have hne : ¬ e.1.map toAsciiLowercase = name.asStr := fun heq =>
          hname (HeaderName.asStr_injective (hown.trans heq))
        simp [hname, hne]

/-- Accepted entries give each name the parts of all entries with this name, in
their order. -/
theorem valuesOf_scanEntries {entries : List (Bytes × Bytes)}
    (h : (scanEntries X entries).result = .ok ()) (name : HeaderName X) :
    (valuesOf name (scanEntries X entries).pairs).map HeaderValue.asBytes =
      partsOf name.asStr entries := by
  induction entries with
  | nil => rfl
  | cons e entries ih =>
      have hboth := (scanEntries_result (e :: entries)).mp h
      have hhead := (scanEntry_result e).mpr (hboth e List.mem_cons_self)
      have htail := (scanEntries_result entries).mpr
        fun e' he' => hboth e' (List.mem_cons_of_mem _ he')
      have hparts : partsOf name.asStr (e :: entries) =
          partsOf name.asStr [e] ++ partsOf name.asStr entries := by
        rw [partsOf, partsOf, partsOf, ← List.flatMap_append, ← List.filter_append]
        rfl
      rw [hparts, ← ih htail, ← valuesOf_scanEntry hhead, scanEntries, Scan.andThen, hhead,
        valuesOf_append, List.map_append]

/-! ## The parser -/

/-- What is parsed of a block is what is scanned in its entries. -/
theorem parseHeaderBlock_block {entries : List (Bytes × Bytes)} {rest raw : Bytes}
    (h : IsBlock entries rest raw) (hlen : raw.length ≤ maxVecLength) :
    parseHeaderBlock X usizeBits raw =
      (appendScan (HeaderMap.new X) (scanEntries X entries)).map Prod.fst := by
  obtain ⟨hcount, hrange, rfl⟩ := h
  have hw : (toBeBytes32 (UInt32.ofNat entries.length) ++
      (entries.flatMap encodeEntry ++ rest)).length + 2 ^ 32 ≤ 2 ^ usizeBits :=
    (Nat.add_le_add_right hlen _).trans (by decide)
  have hn : (UInt32.ofNat entries.length).toNat = entries.length := by simpa using hcount
  rw [parseHeaderBlock_count _ _ hw, hn, scan_entries hrange, appendScan_andThen]
  cases appendScan (HeaderMap.new X) (scanEntries X entries) with
  | error f => rfl
  | ok r =>
      simp only [Except.bind, appendScan_nil]
      rfl

/-- A block that is parsed is a block of the grammar. -/
theorem isBlock_of_parse {raw : Bytes} (hlen : raw.length ≤ maxVecLength) {map : HeaderMap X}
    (h : parseHeaderBlock X usizeBits raw = .ok map) :
    ∃ entries rest, IsBlock entries rest raw := by
  by_cases hshort : raw.length < 4
  · rw [parseHeaderBlock, if_pos hshort] at h
    cases h
  · obtain ⟨a, b, c, d, body, rfl⟩ := exists_four _ (Nat.not_lt.mp hshort)
    have hw : (a :: b :: c :: d :: body).length + 2 ^ 32 ≤ 2 ^ usizeBits :=
      (Nat.add_le_add_right hlen _).trans (by decide)
    rw [parseHeaderBlock_eq hw] at h
    obtain ⟨-, rest, hresult⟩ := appendScan_new_ok h
    have hscan : scan X (fromBeBytes32 a b c d).toNat body =
        ⟨(scan X (fromBeBytes32 a b c d).toNat body).pairs, .ok rest⟩ :=
      congrArg (Scan.mk _) hresult
    obtain ⟨entries, hcount, hrange, rfl⟩ := entries_of_scan hscan
    have hn : UInt32.ofNat entries.length = fromBeBytes32 a b c d := by
      rw [hcount, UInt32.ofNat_toNat]
    refine ⟨entries, rest, ?_, hrange, ?_⟩
    · rw [hcount]
      exact UInt32.toNat_lt _
    · rw [hn, toBeBytes32_fromBeBytes32]
      rfl

/-- What `parse_header_block` makes of a block. -/
structure Parsed (X : Http) (raw : Bytes) : Prop where
  /-- every index and slice is in bounds -/
  inBounds : parseHeaderBlock X usizeBits raw ≠ .error .panic
  /-- accepted is what the grammar derives and the crate accepts -/
  accepted : (∃ map, parseHeaderBlock X usizeBits raw = .ok map) ↔
    ∃ entries rest, IsBlock entries rest raw ∧ ∀ e ∈ entries, X.AcceptsEntry e
  /-- every name has the parts of all its entries, in their order -/
  values : ∀ map entries rest, parseHeaderBlock X usizeBits raw = .ok map →
    IsBlock entries rest raw → ∀ name : HeaderName X,
      (valuesOf name map.iter).map HeaderValue.asBytes = partsOf name.asStr entries
  /-- what is behind the entries does not matter -/
  behind : ∀ entries rest rest' raw', IsBlock entries rest raw → IsBlock entries rest' raw' →
    raw'.length ≤ maxVecLength →
      parseHeaderBlock X usizeBits raw' = parseHeaderBlock X usizeBits raw

/-- **The parser accepts its grammar.**  A block that lists no more headers than a
map holds is parsed as the grammar says. -/
theorem parseHeaderBlock_grammar {raw : Bytes} (hlen : raw.length ≤ maxVecLength)
    (hfit : ¬ TooManyHeaders X (.ok raw)) : Parsed X raw := by
  have hw : raw.length + 2 ^ 32 ≤ 2 ^ usizeBits := (Nat.add_le_add_right hlen _).trans (by decide)
  have hpanic : parseHeaderBlock X usizeBits raw ≠ .error .panic :=
    fun h => hfit ((parseHeaderBlock_panic_iff hw).mp h)
  have hok : ∀ map entries rest, parseHeaderBlock X usizeBits raw = .ok map →
      IsBlock entries rest raw →
      map.iter = (scanEntries X entries).pairs ∧ (scanEntries X entries).result = .ok () := by
    intro map entries rest hmap hblock
    rw [parseHeaderBlock_block hblock hlen] at hmap
    obtain ⟨hiter, u, hresult⟩ := appendScan_new_ok hmap
    exact ⟨hiter, hresult⟩
  refine { inBounds := hpanic, accepted := ⟨?_, ?_⟩, values := ?_, behind := ?_ }
  · rintro ⟨map, hmap⟩
    obtain ⟨entries, rest, hblock⟩ := isBlock_of_parse hlen hmap
    exact ⟨entries, rest, hblock,
      (scanEntries_result entries).mp (hok map entries rest hmap hblock).2⟩
  · rintro ⟨entries, rest, hblock, haccepts⟩
    rw [parseHeaderBlock_block hblock hlen] at hpanic ⊢
    have hresult := (scanEntries_result entries).mpr haccepts
    by_cases hsize : pairsSize X ((HeaderMap.new X).iter ++ (scanEntries X entries).pairs) ≤
        maxHeaderMapSize
    · rw [appendScan_ok hresult hsize]
      exact ⟨_, rfl⟩
    · rw [appendScan_panic hsize] at hpanic
      exact absurd rfl hpanic
  · intro map entries rest hmap hblock name
    obtain ⟨hiter, hresult⟩ := hok map entries rest hmap hblock
    rw [hiter, valuesOf_scanEntries hresult]
  · intro entries rest rest' raw' hblock hblock' hlen'
    rw [parseHeaderBlock_block hblock hlen, parseHeaderBlock_block hblock' hlen']

/-- The entries `A: x NUL y` and `a: z`, and one byte more. -/
def foldedBlock : Bytes :=
  [0, 0, 0, 2, 0, 0, 0, 1, 0x41, 0, 0, 0, 3, 0x78, 0, 0x79, 0, 0, 0, 1, 0x61, 0, 0, 0, 1, 0x7a, 9]

theorem parseHeaderBlock_grammar_folded : Parsed Http.reference foldedBlock := by
  refine parseHeaderBlock_grammar (by decide) fun h => ?_
  have hpanic := (parseHeaderBlock_panic_iff (X := Http.reference) (by decide)).mpr h
  exact absurd hpanic (by decide +kernel)

end SpdyStream.Framing
