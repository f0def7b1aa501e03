/-
  Foundation/Splitting.lean --- splitting, stripping and runs in lists.

  Three ways of cutting a list that text formats use: at every place where two
  given elements stand in a row (`splitPair`), at the first few places of one
  element (`splitN`), and at both ends while a predicate holds (`strip`).  Each
  comes with the law that undoes joining.

  `HasRun p n l` says that `n` elements in a row satisfy `p`.  A reader that
  counts such elements and starts over at any other one stops after the first
  run; `FirstRun` names the prefix it has read by then, and there is one at most.
-/
import Mathlib

set_option autoImplicit false

namespace SpdyStream.Foundation

variable {α : Type}

/-! ## Splitting -/

section Splitting

variable [DecidableEq α]

/-- The pieces between the places where `a` and `b` stand in a row, taken from
the left. -/
def splitPair (a b : α) : List α → List (List α)
  | [] => [[]]
  | [c] => [[c]]
  | c :: d :: rest =>
      if c = a ∧ d = b then [] :: splitPair a b rest
      else (splitPair a b (d :: rest)).modifyHead (c :: ·)

theorem splitPair_cons_ne {a b c : α} (h : c ≠ a) (rest : List α) :
    splitPair a b (c :: rest) = (splitPair a b rest).modifyHead (c :: ·) := by
  cases rest with
  | nil => rfl
  | cons d rest => rw [splitPair, if_neg fun hcd => h hcd.1]

/-- A stretch without the first element of the pair goes into one piece. -/
theorem splitPair_append {a b : α} {l : List α} (h : a ∉ l) (rest : List α) :
    splitPair a b (l ++ rest) = (splitPair a b rest).modifyHead (l ++ ·) := by
  induction l with
  | nil =>
      rw [List.nil_append]
      cases splitPair a b rest with
      | nil => rfl
      | cons piece pieces => rfl
  | cons c l ih =>
      have hc : c ≠ a := fun hca => h (hca ▸ List.mem_cons_self)
      have hl : a ∉ l := fun hal => h (List.mem_cons_of_mem _ hal)
      rw [List.cons_append, splitPair_cons_ne hc, ih hl, List.modifyHead_modifyHead]
      rfl

/-- A piece ends where the pair stands. -/
theorem splitPair_piece {a b : α} {l : List α} (h : a ∉ l) (rest : List α) :
    splitPair a b (l ++ a :: b :: rest) = l :: splitPair a b rest := by
  rw [splitPair_append h, splitPair, if_pos ⟨rfl, rfl⟩, List.modifyHead_cons, List.append_nil]

/-- Splitting undoes joining. -/
theorem splitPair_pieces {a b : α} {ls : List (List α)} (h : ∀ l ∈ ls, a ∉ l) (rest : List α) :
    splitPair a b (ls.flatMap (· ++ [a, b]) ++ rest) = ls ++ splitPair a b rest := by
  induction ls with
  | nil => rfl
  | cons l ls ih =>
      have htail := ih fun l' hl' => h l' (List.mem_cons_of_mem _ hl')
      rw [List.flatMap_cons, List.append_assoc, List.append_assoc]
      show splitPair a b (l ++ a :: b :: (ls.flatMap (· ++ [a, b]) ++ rest)) = _
      rw [splitPair_piece (h l List.mem_cons_self), htail, List.cons_append]

/-- Each piece but one ends with the two elements of the pair. -/
theorem length_splitPair (a b : α) (l : List α) :
    2 * (splitPair a b l).length ≤ l.length + 2 := by
  induction l using splitPair.induct a b with
  | case1 => exact Nat.le_refl 2
  | case2 c => exact Nat.le_succ 2
  | case3 c d rest hpair ih =>
      rw [splitPair, if_pos hpair]
      simp only [List.length_cons]
      omega
  | case4 c d rest hpair ih =>
      rw [splitPair, if_neg hpair, List.length_modifyHead]
      simp only [List.length_cons] at ih ⊢
      omega

/-- The index of the first `sep`. -/
def findElem (sep : α) (l : List α) : Option Nat := l.findIdx? fun c => c = sep

theorem findElem_append {sep : α} {l : List α} (h : sep ∉ l) (rest : List α) :
    findElem sep (l ++ sep :: rest) = some l.length := by
  induction l with
  | nil => simp [findElem, List.findIdx?_cons]
  | cons c l ih =>
      have hc : c ≠ sep := fun hcs => h (hcs ▸ List.mem_cons_self)
      have hl := ih fun hsl => h (List.mem_cons_of_mem _ hsl)
      rw [findElem] at hl
      rw [List.cons_append, findElem, List.findIdx?_cons, hl]
      simp [hc]

theorem findElem_eq_none {sep : α} {l : List α} : findElem sep l = none ↔ sep ∉ l := by
  rw [findElem, List.findIdx?_eq_none_iff]
  constructor
  · intro h hmem
    simpa using h sep hmem
  · intro h c hc
    exact decide_eq_false fun heq => h (heq ▸ hc)

/-- The list is cut at the first `sep`. -/
theorem findElem_eq_some {sep : α} {l : List α} {i : Nat} (h : findElem sep l = some i) :
    ∃ front rest, l = front ++ sep :: rest ∧ sep ∉ front ∧ front.length = i := by
  have hmem : sep ∈ l := by
    by_contra hnone
    cases (findElem_eq_none.mpr hnone).symm.trans h
  obtain ⟨front, rest, rfl, hfront⟩ := List.eq_append_cons_of_mem hmem
  exact ⟨front, rest, rfl, hfront, Option.some.inj ((findElem_append hfront rest).symm.trans h)⟩

/-- There is one way to cut it there. -/
theorem append_sep_inj {sep : α} {l l' rest rest' : List α} (hl : sep ∉ l) (hl' : sep ∉ l')
    (h : l ++ sep :: rest = l' ++ sep :: rest') : l = l' ∧ rest = rest' := by
  have hlen : l.length = l'.length := by
    have hfirst := findElem_append hl rest
    rw [h, findElem_append hl'] at hfirst
    exact (Option.some.inj hfirst).symm
  obtain ⟨hfront, hrest⟩ := List.append_inj h hlen
  exact ⟨hfront, (List.cons.inj hrest).2⟩

/-- At most `n` pieces between the places of `sep`; the last one is the rest. -/
def splitN (sep : α) : Nat → List α → List (List α)
  | 0, _ => []
  | 1, l => [l]
  | n + 2, l =>
      match findElem sep l with
      | none => [l]
      | some i => l.take i :: splitN sep (n + 1) (l.drop (i + 1))

theorem splitN_piece {sep : α} {l : List α} (h : sep ∉ l) (n : Nat) (rest : List α) :
    splitN sep (n + 2) (l ++ sep :: rest) = l :: splitN sep (n + 1) rest := by
  have hdrop : (l ++ sep :: rest).drop (l.length + 1) = rest := by
    rw [← List.drop_drop, List.drop_left]
    rfl
  rw [splitN, findElem_append h]
  simp only [List.take_left, hdrop]

end Splitting

/-! ## Stripping -/

/-- The list without what satisfies `p` at its ends. -/
def strip (p : α → Bool) (l : List α) : List α := (l.dropWhile p).rdropWhile p

theorem strip_cons {p : α → Bool} {c : α} (h : p c = true) (l : List α) :
    strip p (c :: l) = strip p l := by
  rw [strip, List.dropWhile_cons, if_pos h, strip]

theorem strip_eq_self {p : α → Bool} {l : List α} (h : ∀ c ∈ l, p c = false) :
    strip p l = l := by
  have hfront : l.dropWhile p = l := by
    cases l with
    | nil => rfl
    | cons c l => rw [List.dropWhile_cons, if_neg (by simp [h c List.mem_cons_self])]
  rw [strip, hfront, List.rdropWhile_eq_self_iff]
  intro hne
  simp [h _ (List.getLast_mem hne)]

theorem mem_of_mem_strip {p : α → Bool} {l : List α} {c : α} (h : c ∈ strip p l) : c ∈ l :=
  (List.dropWhile_sublist p).subset ((List.rdropWhile_prefix p _).subset h)

/-! ## Runs -/

section Runs

variable {p : α → Bool} {n : Nat}

/-- Somewhere `n` elements in a row satisfy `p`. -/
def HasRun (p : α → Bool) (n : Nat) (l : List α) : Prop :=
  ∃ w, w <:+: l ∧ w.length = n ∧ ∀ c ∈ w, p c = true

theorem HasRun.mono {l l' : List α} (h : HasRun p n l) (hl : l <:+: l') : HasRun p n l' := by
  obtain ⟨w, hw, hlen, hall⟩ := h
  exact ⟨w, hw.trans hl, hlen, hall⟩

theorem HasRun.le_countP {l : List α} (h : HasRun p n l) : n ≤ l.countP p := by
  obtain ⟨w, hw, rfl, hall⟩ := h
  rw [← List.countP_eq_length.mpr hall]
  exact hw.sublist.countP_le

/-- Elements that satisfy `p` join the ones before them. -/
theorem rtakeWhile_append_of_all {w : List α} (h : ∀ c ∈ w, p c = true) (l : List α) :
    (l ++ w).rtakeWhile p = l.rtakeWhile p ++ w := by
  have hrev : ∀ c ∈ w.reverse, p c = true := fun c hc => h c (List.mem_reverse.mp hc)
  rw [List.rtakeWhile, List.reverse_append, List.takeWhile_append_of_pos hrev,
    List.reverse_append, List.reverse_reverse, List.rtakeWhile]

theorem run_at_end_iff {l : List α} :
    (∃ w, w <:+ l ∧ w.length = n ∧ ∀ c ∈ w, p c = true) ↔ n ≤ (l.rtakeWhile p).length := by
  constructor
  · rintro ⟨w, ⟨t, rfl⟩, rfl, hall⟩
    rw [rtakeWhile_append_of_all hall, List.length_append]
    exact Nat.le_add_left _ _
  · intro h
    refine ⟨(l.rtakeWhile p).drop ((l.rtakeWhile p).length - n), ?_, ?_, ?_⟩
    · exact (List.drop_suffix _ _).trans (List.rtakeWhile_suffix p _)
    · rw [List.length_drop]
      omega
    · intro c hc
      exact List.mem_rtakeWhile_imp (List.mem_of_mem_drop hc)

/-- A run that is new with the last element ends there. -/
theorem hasRun_concat {l : List α} {c : α} :
    HasRun p n (l ++ [c]) ↔ n ≤ ((l ++ [c]).rtakeWhile p).length ∨ HasRun p n l := by
  rw [← run_at_end_iff]
  constructor
  · rintro ⟨w, hw, hlen, hall⟩
    rcases List.infix_concat_iff.mp hw with hend | hin
    · exact Or.inl ⟨w, hend, hlen, hall⟩
    · exact Or.inr ⟨w, hin, hlen, hall⟩
  · rintro (⟨w, hend, hlen, hall⟩ | ⟨w, hin, hlen, hall⟩)
    · exact ⟨w, hend.isInfix, hlen, hall⟩
    · exact ⟨w, List.infix_concat_iff.mpr (Or.inr hin), hlen, hall⟩

theorem rtakeWhile_append_cons {c : α} (hc : p c = false) (l r : List α) :
    (l ++ c :: r).rtakeWhile p = r.rtakeWhile p := by
  have hstop : (c :: l.reverse).takeWhile p = [] := by
    rw [List.takeWhile_cons, if_neg (by simp [hc])]
  have hrev : (l ++ c :: r).reverse = r.reverse ++ c :: l.reverse := by simp
  rw [List.rtakeWhile, List.rtakeWhile, hrev, List.takeWhile_append, hstop]
  split
  · rename_i hlen
    rw [List.append_nil, (List.takeWhile_prefix p).eq_of_length hlen]
  · rfl

/-- No run goes across an element that does not satisfy `p`. -/
theorem not_hasRun_append_cons {c : α} (hc : p c = false) {l r : List α}
    (hl : ¬ HasRun p n l) (hr : ¬ HasRun p n r) : ¬ HasRun p n (l ++ c :: r) := by
  have hend : ∀ s, n ≤ (List.rtakeWhile p (l ++ c :: s)).length → HasRun p n s := by
    intro s hs
    rw [rtakeWhile_append_cons hc] at hs
    obtain ⟨w, hw, hlen, hall⟩ := run_at_end_iff.mpr hs
    exact ⟨w, hw.isInfix, hlen, hall⟩
  induction r using List.reverseRecOn with
  | nil =>
      intro h
      rcases hasRun_concat.mp h with hnew | hold
      · exact hr (hend [] hnew)
      · exact hl hold
  | append_singleton r d ih =>
      intro h
      rw [← List.cons_append, ← List.append_assoc] at h
      rcases hasRun_concat.mp h with hnew | hold
      · rw [List.append_assoc, List.cons_append] at hnew
        exact hr (hend _ hnew)
      · exact ih (fun h' => hr (h'.mono (List.prefix_append _ _).isInfix)) hold

/-- The list has a run with its last element and none before. -/
def FirstRun (p : α → Bool) (n : Nat) (l : List α) : Prop := HasRun p n l ∧ ¬ HasRun p n l.dropLast

/-- The first run comes no later than any. -/
theorem FirstRun.length_le {l l' s : List α} (h : FirstRun p n l) (hl : l <+: s)
    (hl' : l' <+: s) (hrun : HasRun p n l') : l.length ≤ l'.length := by
  by_contra hlt
  have hpre : l' <+: l := List.prefix_of_prefix_length_le hl' hl (by omega)
  obtain ⟨t, rfl⟩ := hpre
  have ht : t ≠ [] := by
    rintro rfl
    exact hlt (by simp)
  have hdrop : l' <+: (l' ++ t).dropLast := by
    rw [List.dropLast_append_of_ne_nil ht]
    exact List.prefix_append _ _
  exact h.2 (hrun.mono hdrop.isInfix)

theorem FirstRun.unique {l l' s : List α} (h : FirstRun p n l) (h' : FirstRun p n l')
    (hl : l <+: s) (hl' : l' <+: s) : l = l' := by
  have hle := h.length_le hl hl' h'.1
  have hge := h'.length_le hl' hl h.1
  exact (List.prefix_of_prefix_length_le hl hl' hle).eq_of_length (Nat.le_antisymm hle hge)

end Runs

end SpdyStream.Foundation
