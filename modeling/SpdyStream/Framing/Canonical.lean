/-
  Framing/Canonical.lean --- the encoded header block as a normal form.

  `encode_headers` folds the pairs of a map into a sorted map before it writes
  them, so the block does not depend on the order in which different names are
  visited; and the values of a name can be told from their joined form, because
  no value holds a NUL byte.  So two maps have one block if and only if they are
  the same map (`encodeHeaders_canonical`).

  This rests on the length fields.  They count the bytes of joined values, and a
  joined value may be too long for its field when no single value is.  Then two
  different maps may share a block (`overlong_collide`).
-/
import SpdyStream.Framing.Reference
import SpdyStream.Framing.HeaderRoundTrip

set_option autoImplicit false

namespace SpdyStream.Framing

open SpdyStream.Foundation

variable {X : Http}

/-! ## The sorted map of a header map -/

/-- The sorted map has one entry for each name that has values. -/
theorem mem_headerEntries {h : HeaderMap X} {e : Bytes × Bytes} :
    e ∈ (headerEntries h).entries ↔
      ∃ n : HeaderName X, valuesOf n h.iter ≠ [] ∧ e = Group.entry (n, valuesOf n h.iter) := by
  obtain ⟨k, v⟩ := e
  rw [SortedMap.mem_entries_iff]
  constructor
  · intro hk
    obtain ⟨n, rfl⟩ := exists_name_of_lookup hk
    rw [lookup_headerEntries] at hk
    split at hk
    · cases hk
    · rename_i hne
      exact ⟨n, hne, Prod.ext rfl (Option.some.inj hk).symm⟩
  · rintro ⟨n, hne, heq⟩
    obtain ⟨rfl, rfl⟩ := Prod.mk.inj heq
    rw [lookup_headerEntries, if_neg hne]

/-- The values of a name can be told from their joined form. -/
theorem joined_injective {n : HeaderName X} {vs ws : List (HeaderValue X)} (hvs : vs ≠ [])
    (hws : ws ≠ []) (h : Group.joined (n, vs) = Group.joined (n, ws)) : vs = ws := by
  have hsplit : vs.map HeaderValue.asBytes = ws.map HeaderValue.asBytes := by
    rw [← splitOn_joined (g := (n, vs)) hvs, h, splitOn_joined (g := (n, ws)) hws]
  refine List.map_injective_iff.mpr (fun v w hvw => ?_) hsplit
  cases v
  cases w
  cases hvw
  rfl

/-- A name has the values that another map with the same entries gives it. -/
theorem values_of_entries {h h' : HeaderMap X} (heq : headerEntries h = headerEntries h')
    {n : HeaderName X} (hne : valuesOf n h.iter ≠ []) : valuesOf n h.iter = valuesOf n h'.iter := by
  have hmem : Group.entry (n, valuesOf n h.iter) ∈ (headerEntries h').entries := by
    rw [← heq]
    exact mem_headerEntries.mpr ⟨n, hne, rfl⟩
  obtain ⟨n', hne', hentry⟩ := mem_headerEntries.mp hmem
  obtain ⟨hname, hjoined⟩ := Prod.mk.inj hentry
  cases HeaderName.asStr_injective hname
  exact joined_injective hne hne' hjoined

/-- The fold forgets the order of different names, and nothing else. -/
theorem headerEntries_eq_iff {h h' : HeaderMap X} :
    headerEntries h = headerEntries h' ↔ h.Same h' := by
  constructor
  · intro heq n
    by_cases hn : valuesOf n h.iter = []
    · by_cases hn' : valuesOf n h'.iter = []
      · rw [hn, hn']
      · exact (values_of_entries heq.symm hn').symm
    · exact values_of_entries heq hn
  · intro hsame
    refine SortedMap.ext_mem fun e => ?_
    rw [mem_headerEntries, mem_headerEntries]
    simp only [hsame _]

/-! ## The block read back -/

/-- `n` entries of a block, and the bytes after them. -/
def takeEntries : Nat → Bytes → Except Error (List (Bytes × Bytes) × Bytes)
  | 0, bs => .ok ([], bs)
  | n + 1, bs => do
      let (e, bs) ← takeEntry bs
      let (es, bs) ← takeEntries n bs
      return (e :: es, bs)

theorem takeEntries_encodeEntry {es : List (Bytes × Bytes)}
    (hrange : ∀ e ∈ es, e.1.length < 2 ^ 32 ∧ e.2.length < 2 ^ 32) (rest : Bytes) :
    takeEntries es.length (es.flatMap encodeEntry ++ rest) = .ok (es, rest) := by
  induction es with
  | nil => rfl
  | cons e es ih =>
      obtain ⟨hname, hval⟩ := hrange e List.mem_cons_self
      have hrec := ih fun e' h => hrange e' (List.mem_cons_of_mem _ h)
      rw [List.flatMap_cons, List.append_assoc, List.length_cons, takeEntries,
        takeEntry_encodeEntry hname hval]
      simp only [bind, Except.bind, hrec]
      rfl

theorem keyCount_lt (h : HeaderMap X) : keyCount h.iter < 2 ^ 32 := by
  have hle := (keyCount_le_pairsSize h.iter).trans h.size_le
  exact Nat.lt_of_le_of_lt hle (by decide)

/-- The sorted map has as many entries as the map has names. -/
theorem length_headerEntries (h : HeaderMap X) :
    (headerEntries h).entries.length = keyCount h.iter := by
  obtain ⟨groups, hg⟩ := exists_groups h
  rw [← hg.entries, List.length_map, hg.length_eq]

/-- What stands in a block: a count of the names of the map, and for each of them one
entry, in strictly increasing order. -/
structure ListsNames (h : HeaderMap X) (block : Bytes) (count : UInt32) (body : Bytes)
    (entries : List (Bytes × Bytes)) : Prop where
  block : block = toBeBytes32 count ++ body
  read : takeEntries count.toNat body = .ok (entries, [])
  sorted : entries.Pairwise fun a b => a.1 < b.1
  names : ∀ k, k ∈ entries.map Prod.fst ↔ k ∈ h.iter.map fun p => p.1.asStr
  count : count.toNat = keyCount h.iter

theorem name_mem_headerEntries {h : HeaderMap X} {k : Bytes} :
    k ∈ (headerEntries h).entries.map Prod.fst ↔ k ∈ h.iter.map fun p => p.1.asStr := by
  have hvalues : ∀ n : HeaderName X, valuesOf n h.iter ≠ [] ↔ n ∈ h.iter.map Prod.fst :=
    fun n => by rw [ne_eq, valuesOf_eq_nil_iff, not_not]
  constructor
  · intro hk
    obtain ⟨e, he, rfl⟩ := List.mem_map.mp hk
    obtain ⟨n, hne, rfl⟩ := mem_headerEntries.mp he
    obtain ⟨p, hp, rfl⟩ := List.mem_map.mp ((hvalues n).mp hne)
    exact List.mem_map.mpr ⟨p, hp, rfl⟩
  · intro hk
    obtain ⟨p, hp, rfl⟩ := List.mem_map.mp hk
    have hne := (hvalues p.1).mpr (List.mem_map.mpr ⟨p, hp, rfl⟩)
    exact List.mem_map.mpr ⟨_, mem_headerEntries.mpr ⟨p.1, hne, rfl⟩, rfl⟩

theorem listsNames_encodeHeaders {h : HeaderMap X} (hrange : h.InRange) :
    ListsNames h (encodeHeaders h) (UInt32.ofNat (headerEntries h).entries.length)
      ((headerEntries h).entries.flatMap encodeEntry) (headerEntries h).entries := by
  have hcount : (UInt32.ofNat (headerEntries h).entries.length).toNat =
      (headerEntries h).entries.length := by
    have hlt := keyCount_lt h
    rw [← length_headerEntries] at hlt
    simpa using hlt
  refine ⟨rfl, ?_, (headerEntries h).sorted, fun k => name_mem_headerEntries, ?_⟩
  · have hread := takeEntries_encodeEntry hrange []
    rwa [List.append_nil, ← hcount] at hread
  · rw [hcount, length_headerEntries]

/-- A block is read in one way. -/
theorem ListsNames.entries_unique {h h' : HeaderMap X} {block body body' : Bytes}
    {count count' : UInt32} {entries entries' : List (Bytes × Bytes)}
    (hl : ListsNames h block count body entries)
    (hl' : ListsNames h' block count' body' entries') : entries = entries' := by
  obtain ⟨hcount, hbody⟩ := List.append_inj (hl.block.symm.trans hl'.block)
    (by rw [length_toBeBytes32, length_toBeBytes32])
  have hread := hl.read
  rw [toBeBytes32_injective hcount, hbody, hl'.read] at hread
  exact (Prod.mk.inj (Except.ok.inj hread)).1.symm

/-- **The block is canonical.**  Two maps whose names and joined values fit their length
fields have the same block if and only if they hold the same names with the same
values in the same order; and the block lists every name once, in strictly increasing
order, behind their number. -/
theorem encodeHeaders_canonical {h h' : HeaderMap X} (hrange : h.InRange)
    (hrange' : h'.InRange) :
    (encodeHeaders h = encodeHeaders h' ↔ h.Same h') ∧
      ∃ count body entries, ListsNames h (encodeHeaders h) count body entries := by
  have hl := listsNames_encodeHeaders hrange
  have hl' := listsNames_encodeHeaders hrange'
  refine ⟨⟨fun heq => ?_, fun hsame => ?_⟩, _, _, _, hl⟩
  · rw [← heq] at hl'
    refine headerEntries_eq_iff.mp (SortedMap.ext_mem fun e => ?_)
    rw [hl.entries_unique hl']
  · rw [encodeHeaders, encodeHeaders, headerEntries_eq_iff.mpr hsame]

/-- The values of one name interleaved with those of another, and behind them. -/
def interleaved : HeaderMap Http.reference where
  iter := [(⟨[97], rfl⟩, ⟨[49], rfl⟩), (⟨[98], rfl⟩, ⟨[50], rfl⟩), (⟨[97], rfl⟩, ⟨[], rfl⟩)]
  size_le := by decide

def grouped : HeaderMap Http.reference where
  iter := [(⟨[98], rfl⟩, ⟨[50], rfl⟩), (⟨[97], rfl⟩, ⟨[49], rfl⟩), (⟨[97], rfl⟩, ⟨[], rfl⟩)]
  size_le := by decide

theorem encodeHeaders_canonical_reordered : interleaved.Same grouped ∧
    ∃ count body entries, ListsNames interleaved (encodeHeaders interleaved) count body entries :=
  have hboth : (encodeHeaders interleaved = encodeHeaders grouped ↔ _) ∧ _ :=
    encodeHeaders_canonical (h := interleaved) (by decide) (by decide)
  ⟨hboth.1.mp (by decide), hboth.2⟩

/-! ## Joined values that are too long -/

/-- A map given by its groups has their entries, in the order of the names. -/
theorem entries_of_groups {h : HeaderMap X} {groups : List (Group X)}
    (hsorted : groups.Pairwise fun g g' => g.1.asStr < g'.1.asStr)
    (hiter : h.iter = ungroup groups) (hne : ∀ g ∈ groups, g.2 ≠ []) :
    (headerEntries h).entries = groups.map Group.entry := by
  have hnodup : (groups.map Prod.fst).Nodup :=
    List.pairwise_map.mpr (hsorted.imp fun hlt heq => absurd hlt (by rw [heq]; exact lt_irrefl _))
  have hvalues : ∀ g ∈ groups, valuesOf g.1 h.iter = g.2 := fun g hg => by
    rw [hiter]
    exact valuesOf_ungroup hnodup hg
  have hsame : headerEntries h = ⟨groups.map Group.entry, List.pairwise_map.mpr hsorted⟩ := by
    refine SortedMap.ext_mem fun e => ?_
    rw [mem_headerEntries, List.mem_map]
    constructor
    · rintro ⟨n, hn, rfl⟩
      have hmem : n ∈ groups.map Prod.fst := by
        by_contra hnot
        rw [hiter, valuesOf_ungroup_of_notMem hnot] at hn
        exact hn rfl
      obtain ⟨g, hg, rfl⟩ := List.mem_map.mp hmem
      exact ⟨g, hg, by rw [hvalues g hg]⟩
    · rintro ⟨g, hg, rfl⟩
      exact ⟨g.1, by rw [hvalues g hg]; exact hne g hg, by rw [hvalues g hg]⟩
  rw [hsame]

/-- Each name and each single value of a map is shorter than `2^32` bytes. -/
def HeaderMap.ShortValues (h : HeaderMap X) : Prop :=
  ∀ p ∈ h.iter, p.1.asStr.length < 2 ^ 32 ∧ p.2.asBytes.length < 2 ^ 32

/-- A name of 32 bytes: its length field is a space behind three NUL bytes. -/
def longName : Bytes := List.replicate 32 98

/-- The entry of this name with an empty value; it could stand within joined values. -/
def hiddenEntry : Bytes := encodeEntry (longName, [])

/-- A value of a given length. -/
def fill (n : Nat) : Bytes := List.replicate n 118

theorem fill_accepted (n : Nat) : Http.reference.headerValue (fill n) = true := by
  refine List.all_eq_true.mpr fun b hb => ?_
  rw [List.eq_of_mem_replicate hb]
  rfl

/-- So many bytes that `hiddenEntry` and they have the length `2^32`. -/
def fillerLength : Nat := 2 ^ 32 - 40

def nameA : HeaderName Http.reference := ⟨[97], rfl⟩
def nameLong : HeaderName Http.reference := ⟨longName, by decide⟩
def valueEmpty : HeaderValue Http.reference := ⟨[], rfl⟩
/-- The length field's space and the name, as a value. -/
def valueName : HeaderValue Http.reference := ⟨32 :: longName, by decide⟩
def valueFiller : HeaderValue Http.reference := ⟨fill fillerLength, fill_accepted fillerLength⟩

/-- The hidden entry and the filler under the first name, nothing under the second. -/
def groupsFront : List (Group Http.reference) :=
  [(nameA, [valueEmpty, valueEmpty, valueEmpty, valueName, valueEmpty, valueEmpty, valueEmpty,
    valueFiller]), (nameLong, [valueEmpty])]

/-- Nothing under the first name, the filler and the hidden entry under the second. -/
def groupsBack : List (Group Http.reference) :=
  [(nameA, [valueEmpty]), (nameLong, [valueFiller, valueEmpty, valueEmpty, valueName, valueEmpty,
    valueEmpty, valueEmpty, valueEmpty])]

def mapFront : HeaderMap Http.reference := ⟨ungroup groupsFront, by decide⟩
def mapBack : HeaderMap Http.reference := ⟨ungroup groupsBack, by decide⟩

/-- A block with the two names and these joined values. -/
theorem encode_two {h : HeaderMap Http.reference} {vs ws : List (HeaderValue Http.reference)}
    (hiter : h.iter = ungroup [(nameA, vs), (nameLong, ws)]) (hvs : vs ≠ []) (hws : ws ≠ []) :
    encodeHeaders h = toBeBytes32 2 ++ (encodeEntry ([97], Group.joined (nameA, vs)) ++
      encodeEntry (longName, Group.joined (nameLong, ws))) := by
  have hlt : [97] < longName := by decide
  have hentries : (headerEntries h).entries =
      List.map Group.entry [(nameA, vs), (nameLong, ws)] :=
    entries_of_groups (List.pairwise_pair.mpr hlt) hiter (by simp [hvs, hws])
  rw [encodeHeaders, hentries]
  simp [Group.entry, nameA, nameLong]

theorem joined_front (n : HeaderName Http.reference) : Group.joined (n, [valueEmpty, valueEmpty,
    valueEmpty, valueName, valueEmpty, valueEmpty, valueEmpty, valueFiller]) =
      hiddenEntry ++ fill fillerLength := by
  have hhidden : hiddenEntry = [0, 0, 0] ++ (32 :: longName) ++ [0, 0, 0, 0] := by decide
  rw [hhidden]
  simp [Group.joined, valueEmpty, valueName, valueFiller, List.intercalate_cons_cons]

theorem joined_back (n : HeaderName Http.reference) : Group.joined (n, [valueFiller, valueEmpty,
    valueEmpty, valueName, valueEmpty, valueEmpty, valueEmpty, valueEmpty]) =
      fill fillerLength ++ hiddenEntry := by
  have hhidden : hiddenEntry = [0, 0, 0] ++ (32 :: longName) ++ [0, 0, 0, 0] := by decide
  rw [hhidden]
  simp [Group.joined, valueEmpty, valueName, valueFiller, List.intercalate_cons_cons]

/-- The length field of `2^32` bytes holds zero. -/
theorem encodeEntry_wraps {name val : Bytes} (h : val.length = 2 ^ 32) :
    encodeEntry (name, val) = encodeEntry (name, []) ++ val := by
  have hzero : UInt32.ofNat val.length = UInt32.ofNat ([] : Bytes).length := by
    rw [h]
    rfl
  simp only [encodeEntry, hzero, List.append_nil, List.append_assoc]

theorem length_fill : (fill fillerLength).length = 2 ^ 32 - 40 := by
  rw [fill, List.length_replicate]
  rfl

theorem length_hidden : hiddenEntry.length = 40 := by decide

/-- The names and values of both maps are short. -/
theorem shortValues_of {h : HeaderMap Http.reference}
    (hmem : ∀ p ∈ h.iter, (p.1 = nameA ∨ p.1 = nameLong) ∧
      (p.2 = valueEmpty ∨ p.2 = valueName ∨ p.2 = valueFiller)) : h.ShortValues := by
  intro p hp
  obtain ⟨hname, hvalue⟩ := hmem p hp
  constructor
  · rcases hname with hn | hn
    · rw [hn]
      decide
    · rw [hn]
      decide
  · rcases hvalue with hv | hv | hv
    · rw [hv]
      decide
    · rw [hv]
      decide
    · rw [hv]
      have hlength : valueFiller.asBytes.length = 2 ^ 32 - 40 := length_fill
      omega

/-- Two different maps, with the hidden entry before the filler and behind it, have one
block. -/
theorem overlong_collide : ¬ ∀ h h' : HeaderMap Http.reference, h.ShortValues → h'.ShortValues →
    (encodeHeaders h = encodeHeaders h' ↔ h.Same h') := by
  intro hall
  have hfront : encodeHeaders mapFront = toBeBytes32 2 ++
      (encodeEntry ([97], hiddenEntry ++ fill fillerLength) ++ hiddenEntry) := by
    rw [encode_two (h := mapFront) rfl (by simp) (by simp), joined_front]
    rfl
  have hback : encodeHeaders mapBack = toBeBytes32 2 ++
      (encodeEntry ([97], []) ++ encodeEntry (longName, fill fillerLength ++ hiddenEntry)) := by
    rw [encode_two (h := mapBack) rfl (by simp) (by simp), joined_back]
    rfl
  have hwraps : encodeEntry ([97], hiddenEntry ++ fill fillerLength) =
      encodeEntry ([97], []) ++ (hiddenEntry ++ fill fillerLength) :=
    encodeEntry_wraps (by rw [List.length_append, length_hidden, length_fill]; omega)
  have hwraps' : encodeEntry (longName, fill fillerLength ++ hiddenEntry) =
      encodeEntry (longName, []) ++ (fill fillerLength ++ hiddenEntry) :=
    encodeEntry_wraps (by rw [List.length_append, length_hidden, length_fill]; omega)
  have hsame : encodeHeaders mapFront = encodeHeaders mapBack := by
    rw [hfront, hback, hwraps, hwraps']
    simp only [hiddenEntry, List.append_assoc]
  have hvalues := (hall _ _ (shortValues_of (by simp [mapFront, groupsFront, ungroup]))
    (shortValues_of (by simp [mapBack, groupsBack, ungroup]))).mp hsame nameA
  have hlengths : (valuesOf nameA mapFront.iter).length = 8 ∧
      (valuesOf nameA mapBack.iter).length = 1 := by
    constructor
    · rfl
    · rfl
  rw [hvalues, hlengths.2] at hlengths
  cases hlengths.1

end SpdyStream.Framing
