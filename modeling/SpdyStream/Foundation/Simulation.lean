/-
  Foundation/Simulation.lean --- machines that follow one another.

  A step of one machine is followed in another by a path of no, one or several steps.
  What is seen of the two is compared by a relation between lists of steps, which is
  kept when like is put behind like.  `History.simulated` leads from steps to
  histories; its relation between states need hold only on the way to the states in
  question, which are given by a condition that holds before a step if it holds after.
-/
import SpdyStream.Foundation.Machine

set_option autoImplicit false

namespace SpdyStream.Foundation

namespace Machine

variable {σ α ε σ' α' ε' : Type} {M : Machine σ α ε} {N : Machine σ' α' ε'}

/-- Histories and paths are compared part by part. -/
structure Compares (Like : List (Taken σ α ε) → List (Taken σ' α' ε') → Prop) : Prop where
  nil : Like [] []
  append {p q : List (Taken σ α ε)} {p' q' : List (Taken σ' α' ε')} :
    Like p p' → Like q q' → Like (p ++ q) (p' ++ q')

variable {R : σ → σ' → Prop} {Like : List (Taken σ α ε) → List (Taken σ' α' ε') → Prop}

variable (N R Like) in
/-- From `s'` on the machine `N` follows the step `t`. -/
def Follows (t : Taken σ α ε) (s' : σ') : Prop :=
  ∃ path s'', N.Path s' path s'' ∧ R t.after s'' ∧ Like [t] path

/-- Before it follows a step the machine may take steps that are not seen. -/
theorem Follows.after {t : Taken σ α ε} {s₀ s' : σ'} {path : List (Taken σ' α' ε')}
    (hlike : Compares Like) (hpath : N.Path s₀ path s') (hunseen : Like [] path)
    (h : N.Follows R Like t s') : N.Follows R Like t s₀ := by
  obtain ⟨path', s'', hpath', hR, hsame⟩ := h
  exact ⟨path ++ path', s'', hpath.append hpath', hR, hlike.append hunseen hsame⟩

variable {guard : List ε → σ → α → Prop}

/-- **The simulation rule.**  If the machine `N` follows every step that leads to where
`A` holds, then every history that ends where `A` holds is followed by one of `N`. -/
theorem History.simulated {A : σ → Prop} (hlike : Compares Like)
    (hback : ∀ hist (t : Taken σ α ε), M.History guard hist t.before →
      M.step t.before t.action = some (t.after, t.events) → A t.after → A t.before)
    (hstart : A M.start → R M.start N.start)
    (hstep : ∀ hist (t : Taken σ α ε) hist' s', M.History guard hist t.before →
      M.step t.before t.action = some (t.after, t.events) → A t.after →
      N.History free hist' s' → R t.before s' → N.Follows R Like t s')
    {hist : List (Taken σ α ε)} {s : σ} (h : M.History guard hist s) (hs : A s) :
    ∃ hist' s', N.History free hist' s' ∧ R s s' ∧ Like hist hist' := by
  revert hs
  refine h.invariant (I := fun hist s => A s → ∃ hist' s', N.History free hist' s' ∧ R s s' ∧
    Like hist hist') ?_ ?_
  · exact fun hs => ⟨[], N.start, .start, hstart hs, hlike.nil⟩
  · intro hist t hhist _ hs ih hafter
    obtain ⟨hist', s', hhist', hR, hsame⟩ := ih (hback hist t hhist hs hafter)
    obtain ⟨path, s'', hpath, hR', hone⟩ := hstep hist t hist' s' hhist hs hafter hhist' hR
    exact ⟨hist' ++ path, s'', hhist'.append hpath, hR', hlike.append hsame hone⟩

end Machine

end SpdyStream.Foundation
