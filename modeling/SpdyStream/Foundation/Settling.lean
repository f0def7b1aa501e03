/-
  Foundation/Settling.lean --- machines that come to rest.

  Some actions of a machine are its own: it takes them whenever it can.  The others are
  left to what is around it.  A machine is settled when it has no own step to take.

  `Comes` says that a machine gets somewhere whichever of its own steps it takes, with
  the events on the way.  `Decreases.comes` is the rule: if every own step makes a measure
  smaller, then the machine comes to where it is settled, and what its own steps keep is
  kept on the way.
-/
import SpdyStream.Foundation.Machine

set_option autoImplicit false

namespace SpdyStream.Foundation

namespace Machine

variable {σ α ε : Type} (M : Machine σ α ε) (own : α → Bool)

/-- No own step can be taken. -/
def Settled (s : σ) : Prop := ∀ a, own a = true → M.step s a = none

/-- Whichever own steps are taken after `evs` and from `s`, they lead to where `P` holds,
and do not end before. -/
inductive Comes (P : List ε → σ → Prop) : List ε → σ → Prop where
  | here {evs : List ε} {s : σ} : P evs s → Comes P evs s
  | later {evs : List ε} {s : σ} : ¬ M.Settled own s →
      (∀ a s' es, own a = true → M.step s a = some (s', es) → Comes P (evs ++ es) s') →
      Comes P evs s

/-- Every own step makes the measure smaller. -/
def Decreases {β : Type} [LT β] (measure : σ → β) : Prop :=
  ∀ s a s' es, own a = true → M.step s a = some (s', es) → measure s' < measure s

variable {M own}

theorem Comes.mono {P Q : List ε → σ → Prop} (hPQ : ∀ evs s, P evs s → Q evs s) {evs : List ε}
    {s : σ} (h : M.Comes own P evs s) : M.Comes own Q evs s := by
  induction h with
  | here hP => exact .here (hPQ _ _ hP)
  | later hmoves _ ih => exact .later hmoves ih

/-- What the own steps lead to is reached on one of their paths. -/
theorem Comes.path {P : List ε → σ → Prop} {evs : List ε} {s : σ} (h : M.Comes own P evs s) :
    ∃ path s', M.Path s path s' ∧ (∀ t ∈ path, own t.action = true) ∧
      P (evs ++ path.flatMap Taken.events) s' := by
  induction h with
  | @here evs s hP =>
      refine ⟨[], s, .stay s, by simp, ?_⟩
      rwa [List.flatMap_nil, List.append_nil]
  | @later evs s hmoves _ ih =>
      obtain ⟨a, hown, hs⟩ : ∃ a, own a = true ∧ M.step s a ≠ none := by
        simpa [Settled] using hmoves
      obtain ⟨⟨s', es⟩, hs⟩ := Option.ne_none_iff_exists'.mp hs
      obtain ⟨path, s'', hpath, hall, hP⟩ := ih a s' es hown hs
      refine ⟨⟨s, a, s', es⟩ :: path, s'', .step hs hpath, ?_, ?_⟩
      · intro t ht
        rcases List.mem_cons.mp ht with rfl | ht
        · exact hown
        · exact hall t ht
      · rwa [List.flatMap_cons, ← List.append_assoc]

/-- **The settling rule.**  If every own step makes a measure smaller, then the machine
comes to where it is settled, whichever own steps are taken, and keeps on the way what
they keep. -/
theorem Decreases.comes {β : Type} [Preorder β] [WellFoundedLT β] {measure : σ → β}
    (hdec : M.Decreases own measure) {J : List ε → σ → Prop}
    (hkeep : ∀ evs s a s' es, J evs s → own a = true → M.step s a = some (s', es) →
      J (evs ++ es) s')
    {evs : List ε} {s : σ} (h : J evs s) :
    M.Comes own (fun evs s => J evs s ∧ M.Settled own s) evs s := by
  have hall : ∀ (b : β) (evs : List ε) (s : σ), measure s = b → J evs s →
      M.Comes own (fun evs s => J evs s ∧ M.Settled own s) evs s := by
    intro b
    induction b using WellFoundedLT.induction with
    | ind b ih =>
      rintro evs s rfl hJ
      by_cases hrest : M.Settled own s
      · exact .here ⟨hJ, hrest⟩
      · refine .later hrest fun a s' es ha hs => ?_
        exact ih (measure s') (hdec s a s' es ha hs) (evs ++ es) s' rfl
          (hkeep evs s a s' es hJ ha hs)
  exact hall (measure s) evs s rfl h

/-- Some of the own steps decrease what all of them do. -/
theorem Decreases.mono {own' : α → Bool} (hsome : ∀ a, own' a = true → own a = true) {β : Type}
    [LT β] {measure : σ → β} (h : M.Decreases own measure) : M.Decreases own' measure :=
  fun s a s' es hown hs => h s a s' es (hsome a hown) hs

end Machine

/-! ## Measures -/

/-- A measure of all parts, when one part in a list is another. -/
theorem sum_map_set {β : Type} (g : β → Nat) {l : List β} {k : Nat} {x : β} (y : β)
    (hx : l[k]? = some x) : ((l.set k y).map g).sum + g x = (l.map g).sum + g y := by
  induction l generalizing k with
  | nil => cases hx
  | cons z l ih =>
      cases k with
      | zero =>
          cases hx
          simp only [List.set_cons_zero, List.map_cons, List.sum_cons]
          omega
      | succ k =>
          have hrest := ih (k := k) hx
          simp only [List.set_cons_succ, List.map_cons, List.sum_cons]
          omega

/-- A measure of all parts, when one of a family of parts is another. -/
theorem sum_update {ι β : Type} [Fintype ι] [DecidableEq ι] (g : β → Nat) (f : ι → β) (i : ι)
    (y : β) : (∑ j, g (Function.update f i y j)) + g (f i) = (∑ j, g (f j)) + g y := by
  have hnew := Finset.add_sum_erase Finset.univ (fun j => g (Function.update f i y j))
    (Finset.mem_univ i)
  have hold := Finset.add_sum_erase Finset.univ (fun j => g (f j)) (Finset.mem_univ i)
  have hrest : ∑ j ∈ Finset.univ.erase i, g (Function.update f i y j) =
      ∑ j ∈ Finset.univ.erase i, g (f j) :=
    Finset.sum_congr rfl fun j hj => by rw [Function.update_of_ne (Finset.ne_of_mem_erase hj)]
  simp only [Function.update_self] at hnew
  omega

end SpdyStream.Foundation
