/-
  Foundation/Multimap.lean --- multimaps as lists of pairs, and sorted maps.

  A multimap is the list of its key-value pairs in any order of visit; what it
  means is the list of values under each key (`valuesOf`).  Two lists that give
  every key the same values are rearrangements of one another
  (`SameValues.perm`), so they have the same number of pairs and of keys.

  A `SortedMap` carries the proof that its keys increase strictly.  It is built
  by `upsert`; `ofPairs` folds a whole multimap into one, combining the values
  of a key in their order.
-/
import Mathlib

set_option autoImplicit false

namespace SpdyStream.Foundation

variable {κ ν μ : Type}

/-! ## Multimaps -/

section Multimap

variable [DecidableEq κ]

/-- The values under a key, in the order the pairs are visited. -/
def valuesOf (k : κ) (ps : List (κ × ν)) : List ν :=
  (ps.filter fun p => p.1 = k).map Prod.snd

/-- The number of different keys. -/
def keyCount (ps : List (κ × ν)) : Nat := (ps.map Prod.fst).dedup.length

/-- Every key has the same values in the same order. -/
def SameValues (ps qs : List (κ × ν)) : Prop := ∀ k, valuesOf k ps = valuesOf k qs

@[simp] theorem valuesOf_nil (k : κ) : valuesOf k ([] : List (κ × ν)) = [] := rfl

theorem valuesOf_append (k : κ) (ps qs : List (κ × ν)) :
    valuesOf k (ps ++ qs) = valuesOf k ps ++ valuesOf k qs := by
  simp [valuesOf]

theorem valuesOf_concat_self (k : κ) (v : ν) (ps : List (κ × ν)) :
    valuesOf k (ps ++ [(k, v)]) = valuesOf k ps ++ [v] := by
  simp [valuesOf]

theorem valuesOf_concat_ne {k k' : κ} (h : k' ≠ k) (v : ν) (ps : List (κ × ν)) :
    valuesOf k (ps ++ [(k', v)]) = valuesOf k ps := by
  simp [valuesOf, h]

theorem mem_valuesOf {k : κ} {v : ν} {ps : List (κ × ν)} :
    v ∈ valuesOf k ps ↔ (k, v) ∈ ps := by
  simp [valuesOf]

theorem valuesOf_eq_nil_iff {k : κ} {ps : List (κ × ν)} :
    valuesOf k ps = [] ↔ k ∉ ps.map Prod.fst := by
  constructor
  · intro h hk
    obtain ⟨⟨k', v⟩, hp, rfl⟩ := List.mem_map.mp hk
    have hv : v ∈ valuesOf k' ps := mem_valuesOf.mpr hp
    simp [h] at hv
  · intro h
    rw [List.eq_nil_iff_forall_not_mem]
    intro v hv
    exact h (List.mem_map.mpr ⟨(k, v), mem_valuesOf.mp hv, rfl⟩)

/-- The values one key brings in as a block. -/
theorem valuesOf_map_pair (k k' : κ) (vs : List ν) :
    valuesOf k (vs.map fun v => (k', v)) = if k' = k then vs else [] := by
  induction vs with
  | nil => simp
  | cons v vs ih =>
      have hcons : valuesOf k ((k', v) :: vs.map fun v => (k', v)) =
          (if k' = k then [v] else []) ++ valuesOf k (vs.map fun v => (k', v)) := by
        by_cases h : k' = k <;> simp [valuesOf, h]
      rw [List.map_cons, hcons, ih]
      split <;> simp

/-- Renaming keys one to one, and changing values, keeps values under their keys. -/
theorem valuesOf_map {κ' ν' : Type} [DecidableEq κ'] {f : κ → κ'} (hf : Function.Injective f)
    (g : ν → ν') (k : κ) (ps : List (κ × ν)) :
    valuesOf (f k) (ps.map fun p => (f p.1, g p.2)) = (valuesOf k ps).map g := by
  induction ps with
  | nil => rfl
  | cons p ps ih =>
      by_cases h : p.1 = k
      · simp_all [valuesOf]
      · have hne : f p.1 ≠ f k := fun he => h (hf he)
        simp_all [valuesOf]

/-- The pairs of a list of keys, each with its values. -/
def ungroup (groups : List (κ × List ν)) : List (κ × ν) :=
  groups.flatMap fun g => g.2.map fun v => (g.1, v)

theorem valuesOf_ungroup_of_notMem {k : κ} {groups : List (κ × List ν)}
    (h : k ∉ groups.map Prod.fst) : valuesOf k (ungroup groups) = [] := by
  rw [valuesOf_eq_nil_iff]
  intro hk
  obtain ⟨p, hp, rfl⟩ := List.mem_map.mp hk
  obtain ⟨g, hg, hpg⟩ := List.mem_flatMap.mp hp
  obtain ⟨v, -, rfl⟩ := List.mem_map.mp hpg
  exact h (List.mem_map.mpr ⟨g, hg, rfl⟩)

/-- Where each key has one group, the group holds the values of its key. -/
theorem valuesOf_ungroup {k : κ} {vs : List ν} {groups : List (κ × List ν)}
    (hnodup : (groups.map Prod.fst).Nodup) (h : (k, vs) ∈ groups) :
    valuesOf k (ungroup groups) = vs := by
  induction groups with
  | nil => exact absurd h List.not_mem_nil
  | cons g rest ih =>
      obtain ⟨hg, hrest⟩ := List.nodup_cons.mp hnodup
      have hcons : ungroup (g :: rest) = (g.2.map fun v => (g.1, v)) ++ ungroup rest := rfl
      rw [hcons, valuesOf_append, valuesOf_map_pair]
      rcases List.mem_cons.mp h with rfl | hmem
      · rw [if_pos rfl, valuesOf_ungroup_of_notMem hg, List.append_nil]
      · have hne : g.1 ≠ k := fun he => hg (he ▸ List.mem_map.mpr ⟨(k, vs), hmem, rfl⟩)
        rw [if_neg hne, List.nil_append, ih hrest hmem]

theorem count_pair [DecidableEq ν] (k : κ) (v : ν) (ps : List (κ × ν)) :
    ps.count (k, v) = (valuesOf k ps).count v := by
  induction ps with
  | nil => rfl
  | cons p ps ih =>
      obtain ⟨k', v'⟩ := p
      by_cases hk : k' = k
      · subst hk
        by_cases hv : v' = v <;> simp_all [valuesOf]
      · simp_all [valuesOf]

theorem SameValues.perm {ps qs : List (κ × ν)} (h : SameValues ps qs) : ps.Perm qs := by
  classical
  rw [List.perm_iff_count]
  rintro ⟨k, v⟩
  rw [count_pair, count_pair, h k]

theorem SameValues.keyCount_eq {ps qs : List (κ × ν)} (h : SameValues ps qs) :
    keyCount ps = keyCount qs :=
  (h.perm.map Prod.fst).dedup.length_eq

theorem SameValues.length_eq {ps qs : List (κ × ν)} (h : SameValues ps qs) :
    ps.length = qs.length :=
  h.perm.length_eq

theorem keyCount_mono {ps qs : List (κ × ν)} (h : ps <+: qs) :
    keyCount ps ≤ keyCount qs := by
  obtain ⟨rest, rfl⟩ := h
  have hsub : (ps.map Prod.fst).dedup ⊆ ((ps ++ rest).map Prod.fst).dedup := by
    intro k hk
    rw [List.mem_dedup] at hk ⊢
    rw [List.map_append]
    exact List.mem_append_left _ hk
  exact (List.nodup_dedup _).length_le_of_subset hsub

theorem keyCount_le_length (ps : List (κ × ν)) : keyCount ps ≤ ps.length := by
  have h := (List.dedup_sublist (ps.map Prod.fst)).length_le
  simpa [keyCount] using h

end Multimap

/-! ## Sorted maps -/

/-- A finite map listed by strictly increasing key. -/
structure SortedMap (κ ν : Type) [LinearOrder κ] where
  entries : List (κ × ν)
  sorted : entries.Pairwise fun a b => a.1 < b.1

namespace SortedMap

variable [LinearOrder κ]

def empty : SortedMap κ ν := ⟨[], List.Pairwise.nil⟩

/-- Insert or update the entry of one key in a list kept in key order. -/
def upsertList (k : κ) (f : Option μ → μ) : List (κ × μ) → List (κ × μ)
  | [] => [(k, f none)]
  | (k', v) :: rest =>
      if k < k' then (k, f none) :: (k', v) :: rest
      else if k = k' then (k', f (some v)) :: rest
      else (k', v) :: upsertList k f rest

theorem mem_upsertList {k : κ} {f : Option μ → μ} {l : List (κ × μ)} {p : κ × μ}
    (h : p ∈ upsertList k f l) : p.1 = k ∨ p ∈ l := by
  induction l with
  | nil => simp_all [upsertList]
  | cons hd rest ih =>
      obtain ⟨k', v⟩ := hd
      simp only [upsertList] at h
      split_ifs at h with h1 h2
      · rcases List.mem_cons.mp h with rfl | h
        · exact Or.inl rfl
        · exact Or.inr h
      · rcases List.mem_cons.mp h with rfl | h
        · exact Or.inl h2.symm
        · exact Or.inr (List.mem_cons_of_mem _ h)
      · rcases List.mem_cons.mp h with rfl | h
        · exact Or.inr List.mem_cons_self
        · exact (ih h).imp id (List.mem_cons_of_mem _)

theorem upsertList_sorted {k : κ} {f : Option μ → μ} {l : List (κ × μ)}
    (h : l.Pairwise fun a b => a.1 < b.1) :
    (upsertList k f l).Pairwise fun a b => a.1 < b.1 := by
  induction l with
  | nil => simp [upsertList]
  | cons hd rest ih =>
      obtain ⟨k', v⟩ := hd
      obtain ⟨hhd, hrest⟩ := List.pairwise_cons.mp h
      simp only [upsertList]
      split_ifs with h1 h2
      · refine List.pairwise_cons.mpr ⟨?_, h⟩
        intro p hp
        rcases List.mem_cons.mp hp with rfl | hp
        · exact h1
        · exact h1.trans (hhd p hp)
      · exact List.pairwise_cons.mpr ⟨hhd, hrest⟩
      · refine List.pairwise_cons.mpr ⟨?_, ih hrest⟩
        intro p hp
        rcases mem_upsertList hp with hpk | hp
        · exact hpk ▸ lt_of_le_of_ne (not_lt.mp h1) (Ne.symm h2)
        · exact hhd p hp

/-- Insert or update the entry of one key: `f` is given the value there, if
there is one. -/
def upsert (m : SortedMap κ μ) (k : κ) (f : Option μ → μ) : SortedMap κ μ :=
  ⟨upsertList k f m.entries, upsertList_sorted m.sorted⟩

/-- The value under a key. -/
def lookup (m : SortedMap κ μ) (k : κ) : Option μ := m.entries.lookup k

theorem lookup_upsertList_self {k : κ} {f : Option μ → μ} {l : List (κ × μ)}
    (h : l.Pairwise fun a b => a.1 < b.1) :
    (upsertList k f l).lookup k = some (f (l.lookup k)) := by
  induction l with
  | nil => simp [upsertList]
  | cons hd rest ih =>
      obtain ⟨k', v⟩ := hd
      obtain ⟨hhd, hrest⟩ := List.pairwise_cons.mp h
      simp only [upsertList]
      split_ifs with h1 h2
      · -- `k` is below every key of the list, so it is not there yet.
        have hnone : ((k', v) :: rest).lookup k = none := by
          rw [List.lookup_eq_none_iff]
          intro p hp
          rcases List.mem_cons.mp hp with rfl | hp
          · simpa using ne_of_lt h1
          · simpa using ne_of_lt (h1.trans (hhd p hp))
        rw [hnone]
        simp
      · subst h2
        simp
      · have hne : (k == k') = false := by simpa using h2
        simp only [List.lookup_cons, hne]
        exact ih hrest

theorem lookup_upsertList_ne {k k' : κ} (hne : k' ≠ k) (f : Option μ → μ)
    (l : List (κ × μ)) : (upsertList k f l).lookup k' = l.lookup k' := by
  induction l with
  | nil => simp [upsertList, hne]
  | cons hd rest ih =>
      obtain ⟨k'', v⟩ := hd
      have hbeq : (k' == k) = false := by simpa using hne
      simp only [upsertList]
      split_ifs with h1 h2
      · simp [List.lookup_cons, hbeq]
      · subst h2
        simp [List.lookup_cons, hbeq]
      · simp [List.lookup_cons, ih]

theorem lookup_upsert_self (m : SortedMap κ μ) (k : κ) (f : Option μ → μ) :
    (m.upsert k f).lookup k = some (f (m.lookup k)) :=
  lookup_upsertList_self m.sorted

theorem lookup_upsert_ne (m : SortedMap κ μ) {k k' : κ} (hne : k' ≠ k) (f : Option μ → μ) :
    (m.upsert k f).lookup k' = m.lookup k' :=
  lookup_upsertList_ne hne f m.entries

theorem keys_nodup (m : SortedMap κ μ) : (m.entries.map Prod.fst).Nodup :=
  List.pairwise_map.mpr (m.sorted.imp ne_of_lt)

theorem mem_iff_lookup_of_sorted {l : List (κ × μ)} (h : l.Pairwise fun a b => a.1 < b.1)
    (k : κ) (v : μ) : (k, v) ∈ l ↔ l.lookup k = some v := by
  induction l with
  | nil => simp
  | cons hd rest ih =>
      obtain ⟨k', w⟩ := hd
      obtain ⟨hhd, hrest⟩ := List.pairwise_cons.mp h
      by_cases hk : k = k'
      · subst hk
        have hnot : (k, v) ∉ rest := fun hmem => absurd (hhd (k, v) hmem) (lt_irrefl k)
        simp only [List.mem_cons, Prod.mk.injEq, true_and, hnot, or_false, List.lookup_cons_self,
          Option.some.injEq]
        exact eq_comm
      · have hbeq : (k == k') = false := by simpa using hk
        simp [List.lookup_cons, hbeq, hk, ih hrest]

theorem mem_entries_iff (m : SortedMap κ μ) (k : κ) (v : μ) :
    (k, v) ∈ m.entries ↔ m.lookup k = some v :=
  mem_iff_lookup_of_sorted m.sorted k v

/-- A sorted map is determined by its entries in any order. -/
theorem ext_mem {m m' : SortedMap κ μ} (h : ∀ e, e ∈ m.entries ↔ e ∈ m'.entries) : m = m' := by
  have hperm : m.entries.Perm m'.entries :=
    (List.perm_ext_iff_of_nodup (List.Nodup.of_map _ m.keys_nodup)
      (List.Nodup.of_map _ m'.keys_nodup)).mpr h
  have hentries : m.entries = m'.entries :=
    hperm.eq_of_pairwise (fun _ _ _ _ hlt hgt => absurd hlt (lt_asymm hgt)) m.sorted m'.sorted
  obtain ⟨l, hl⟩ := m
  obtain ⟨l', hl'⟩ := m'
  cases hentries
  rfl

/-! ## Folding a multimap -/

/-- Fold a multimap into a sorted map, visiting its pairs in order. -/
def ofPairs (f : ν → Option μ → μ) (ps : List (κ × ν)) : SortedMap κ μ :=
  ps.foldl (fun m p => m.upsert p.1 (f p.2)) empty

/-- What the fold leaves under a key is the fold of that key's own values. -/
theorem lookup_ofPairs [DecidableEq κ] (f : ν → Option μ → μ) (k : κ) (ps : List (κ × ν)) :
    (ofPairs f ps).lookup k = (valuesOf k ps).foldl (fun acc v => some (f v acc)) none := by
  induction ps using List.reverseRecOn with
  | nil => rfl
  | append_singleton ps p ih =>
      obtain ⟨k', v⟩ := p
      have hfold : ofPairs f (ps ++ [(k', v)]) = (ofPairs f ps).upsert k' (f v) := by
        simp [ofPairs]
      rw [hfold]
      by_cases h : k = k'
      · subst h
        rw [lookup_upsert_self, ih, valuesOf_concat_self, List.foldl_concat]
      · rw [lookup_upsert_ne _ h, ih, valuesOf_concat_ne (Ne.symm h)]

end SortedMap

end SpdyStream.Foundation
