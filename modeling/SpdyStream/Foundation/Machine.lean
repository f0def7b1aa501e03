/-
  Foundation/Machine.lean --- machines whose steps report events, and their runs.

  A step is given by an action; it is disabled or it leads to a next state and a
  list of events.  A run is a sequence of steps from the start, with the events
  of all of them.  Runs may be restricted by a guard: a condition on each step
  that sees the events so far, the state before the step, and the action.

  `Run.invariant` is the one induction over runs; everything that holds in every
  state reached is proved by it, `Run.conserved` being its form for queues.
  `Run.step_of_split` goes back from an event to its step.  `exec` runs a given
  list of actions, and is how a particular run is shown to exist.

  A history is a run with its steps: statements about the order of steps, and not
  only of their events, are made about histories.  A path continues a history.
-/
import Mathlib

set_option autoImplicit false

namespace SpdyStream.Foundation

/-- A machine with states `σ`, actions `α` and events `ε`. -/
structure Machine (σ α ε : Type) where
  start : σ
  step : σ → α → Option (σ × List ε)

namespace Machine

variable {σ α ε : Type} (M : Machine σ α ε)

/-- What can be reached by steps that meet the guard: the events of the run and
the state it ends in. -/
inductive Run (guard : List ε → σ → α → Prop) : List ε → σ → Prop where
  | start : Run guard [] M.start
  | step {evs es : List ε} {s s' : σ} {a : α} :
      Run guard evs s → guard evs s a → M.step s a = some (s', es) → Run guard (evs ++ es) s'

/-- Any step is allowed. -/
def free (_ : List ε) (_ : σ) (_ : α) : Prop := True

/-- What any run reaches. -/
def Reached (evs : List ε) (s : σ) : Prop := M.Run free evs s

variable {M} {guard : List ε → σ → α → Prop}

/-- A run meets every weaker guard. -/
theorem Run.mono {guard' : List ε → σ → α → Prop}
    (hguard : ∀ evs s a, guard evs s a → guard' evs s a) {evs : List ε} {s : σ}
    (h : M.Run guard evs s) : M.Run guard' evs s := by
  induction h with
  | start => exact Run.start
  | step _ hg hstep ih => exact Run.step ih (hguard _ _ _ hg) hstep

/-- **The invariant rule.**  What holds at the start and is preserved by every
step that meets the guard holds wherever such a run ends. -/
theorem Run.invariant {I : List ε → σ → Prop} (hstart : I [] M.start)
    (hstep : ∀ (evs es : List ε) (s s' : σ) (a : α), M.Run guard evs s → guard evs s a →
      M.step s a = some (s', es) → I evs s → I (evs ++ es) s')
    {evs : List ε} {s : σ} (h : M.Run guard evs s) : I evs s := by
  induction h with
  | start => exact hstart
  | step hrun hguard hs ih => exact hstep _ _ _ _ _ hrun hguard hs ih

/-- **The queue rule.**  If what a step takes in goes behind what is held, and
what it gives out is taken from the front, then what a run has taken in is what
it has given out and what it still holds, in this order. -/
theorem Run.conserved {β : Type} {ins outs : ε → List β} (held : σ → List β)
    (hstart : held M.start = [])
    (hstep : ∀ (evs es : List ε) (s s' : σ) (a : α), M.Run guard evs s → guard evs s a →
      M.step s a = some (s', es) → held s ++ es.flatMap ins = es.flatMap outs ++ held s')
    {evs : List ε} {s : σ} (h : M.Run guard evs s) :
    evs.flatMap ins = evs.flatMap outs ++ held s := by
  refine h.invariant (I := fun evs s => evs.flatMap ins = evs.flatMap outs ++ held s) ?_ ?_
  · simp [hstart]
  · intro evs es s s' a hrun hguard hs ih
    have hone := hstep evs es s s' a hrun hguard hs
    calc (evs ++ es).flatMap ins
        = evs.flatMap outs ++ (held s ++ es.flatMap ins) := by
          rw [List.flatMap_append, ih, List.append_assoc]
      _ = (evs ++ es).flatMap outs ++ held s' := by
          rw [hone, List.flatMap_append, List.append_assoc]

/-- **The history rule.**  An event of a run is one of a step of the run, and what
is before it is what was before the step and what the step did before. -/
theorem Run.step_of_split {evs : List ε} {s : σ} (h : M.Run guard evs s) {pre post : List ε}
    {e : ε} (he : evs = pre ++ e :: post) :
    ∃ evs₀ s₀ a s₁ es₁ es₂, M.Run guard evs₀ s₀ ∧ guard evs₀ s₀ a ∧
      M.step s₀ a = some (s₁, es₁ ++ e :: es₂) ∧ pre = evs₀ ++ es₁ := by
  induction h generalizing post with
  | start => exact absurd he (by simp)
  | @step evs es s s' a hrun hguard hs ih =>
      rcases List.append_eq_append_iff.mp he with ⟨es₁, hpre, hes⟩ | ⟨rest, hevs, hrest⟩
      · exact ⟨evs, s, a, s', es₁, post, hrun, hguard, hes ▸ hs, hpre⟩
      · cases rest with
        | nil =>
            rw [List.append_nil] at hevs
            refine ⟨evs, s, a, s', [], post, hrun, hguard, ?_, ?_⟩
            · rw [List.nil_append, hrest]
              exact hs
            · rw [List.append_nil, hevs]
        | cons x rest =>
            obtain ⟨rfl, -⟩ := List.cons.inj hrest
            exact ih hevs

/-! ## Histories -/

/-- A step that was taken. -/
structure Taken (σ α ε : Type) where
  before : σ
  action : α
  after : σ
  events : List ε

variable (M) in
/-- The steps of a run, and the state it ends in. -/
inductive History (guard : List ε → σ → α → Prop) : List (Taken σ α ε) → σ → Prop where
  | start : History guard [] M.start
  | step {hist : List (Taken σ α ε)} {s s' : σ} {a : α} {es : List ε} :
      History guard hist s → guard (hist.flatMap Taken.events) s a →
      M.step s a = some (s', es) → History guard (hist ++ [⟨s, a, s', es⟩]) s'

theorem History.run {hist : List (Taken σ α ε)} {s : σ} (h : M.History guard hist s) :
    M.Run guard (hist.flatMap Taken.events) s := by
  induction h with
  | start => exact Run.start
  | step _ hguard hs ih =>
      rw [List.flatMap_append, List.flatMap_singleton]
      exact ih.step hguard hs

/-- Every run has a history. -/
theorem Run.history {evs : List ε} {s : σ} (h : M.Run guard evs s) :
    ∃ hist, M.History guard hist s ∧ hist.flatMap Taken.events = evs := by
  induction h with
  | start => exact ⟨[], .start, rfl⟩
  | @step evs es s s' a _ hguard hs ih =>
      obtain ⟨hist, hhist, rfl⟩ := ih
      refine ⟨hist ++ [⟨s, a, s', es⟩], hhist.step hguard hs, ?_⟩
      rw [List.flatMap_append, List.flatMap_singleton]

/-- A place in a list with one more at the end. -/
theorem concat_eq_split {β : Type} {l pre post : List β} {x y : β}
    (h : l ++ [x] = pre ++ y :: post) :
    (pre = l ∧ y = x) ∨ ∃ mid, l = pre ++ y :: mid := by
  rcases List.append_eq_append_iff.mp h with ⟨mid, hpre, hone⟩ | ⟨mid, hl, hrest⟩
  · cases mid with
    | nil =>
        obtain ⟨rfl, -⟩ := List.cons.inj hone
        exact .inl ⟨hpre.trans (List.append_nil l), rfl⟩
    | cons z mid => simp at hone
  · cases mid with
    | nil =>
        obtain ⟨rfl, -⟩ := List.cons.inj hrest
        exact .inl ⟨(hl.trans (List.append_nil pre)).symm, rfl⟩
    | cons z mid =>
        obtain ⟨rfl, -⟩ := List.cons.inj hrest
        exact .inr ⟨mid, hl⟩

/-- What is before a step of a history is a history, and the step was allowed. -/
theorem History.split {hist : List (Taken σ α ε)} {s : σ} (h : M.History guard hist s)
    {pre post : List (Taken σ α ε)} {t : Taken σ α ε} (heq : hist = pre ++ t :: post) :
    M.History guard pre t.before ∧ guard (pre.flatMap Taken.events) t.before t.action ∧
      M.step t.before t.action = some (t.after, t.events) := by
  induction h generalizing post with
  | start => exact absurd heq (by simp)
  | @step hist s s' a es hhist hguard hs ih =>
      rcases concat_eq_split heq with ⟨rfl, rfl⟩ | ⟨mid, hhist'⟩
      · exact ⟨hhist, hguard, hs⟩
      · exact ih hhist'

/-- What is up to a step of a history, with the step, is a history of its steps. -/
theorem History.upTo {hist : List (Taken σ α ε)} {s : σ} (h : M.History guard hist s)
    {pre post : List (Taken σ α ε)} {t : Taken σ α ε} (heq : hist = pre ++ t :: post) :
    M.History guard (pre ++ [t]) t.after ∧ ∀ u ∈ pre ++ [t], u ∈ hist := by
  obtain ⟨hpre, hguard, hs⟩ := h.split heq
  refine ⟨hpre.step hguard hs, fun u hu => ?_⟩
  rw [heq, List.append_cons]
  exact List.mem_append_left _ hu

/-- **The invariant rule for histories.** -/
theorem History.invariant {I : List (Taken σ α ε) → σ → Prop} (hstart : I [] M.start)
    (hstep : ∀ (hist : List (Taken σ α ε)) (t : Taken σ α ε), M.History guard hist t.before →
      guard (hist.flatMap Taken.events) t.before t.action →
      M.step t.before t.action = some (t.after, t.events) → I hist t.before →
      I (hist ++ [t]) t.after)
    {hist : List (Taken σ α ε)} {s : σ} (h : M.History guard hist s) : I hist s := by
  induction h with
  | start => exact hstart
  | @step hist s s' a es hhist hguard hs ih => exact hstep hist ⟨s, a, s', es⟩ hhist hguard hs ih

/-! ## Paths -/

variable (M) in
/-- The steps that lead from one state to another. -/
inductive Path : σ → List (Taken σ α ε) → σ → Prop where
  | stay (s : σ) : Path s [] s
  | step {s s' s'' : σ} {a : α} {es : List ε} {path : List (Taken σ α ε)} :
      M.step s a = some (s', es) → Path s' path s'' → Path s (⟨s, a, s', es⟩ :: path) s''

theorem Path.one {s s' : σ} {a : α} {es : List ε} (hs : M.step s a = some (s', es)) :
    M.Path s [⟨s, a, s', es⟩] s' :=
  .step hs (.stay s')

theorem Path.append {s s' s'' : σ} {p q : List (Taken σ α ε)} (hp : M.Path s p s')
    (hq : M.Path s' q s'') : M.Path s (p ++ q) s'' := by
  induction hp with
  | stay s => exact hq
  | step hs _ ih => exact .step hs (ih hq)

/-- A path goes on from where a history ends. -/
theorem History.append {hist path : List (Taken σ α ε)} {s s' : σ} (h : M.History free hist s)
    (hp : M.Path s path s') : M.History free (hist ++ path) s' := by
  induction hp generalizing hist with
  | stay s =>
      rw [List.append_nil]
      exact h
  | step hs _ ih =>
      have hnext := ih (h.step trivial hs)
      rwa [List.append_assoc] at hnext

/-! ## Given runs -/

/-- Run the actions in order, if all of them are enabled when their turn comes
and meet the guard. -/
def exec (M : Machine σ α ε) (guard : List ε → σ → α → Prop)
    [∀ evs s a, Decidable (guard evs s a)] :
    List ε → σ → List α → Option (List ε × σ)
  | evs, s, [] => some (evs, s)
  | evs, s, a :: as =>
      if guard evs s a then
        match M.step s a with
        | none => none
        | some (s', es) => exec M guard (evs ++ es) s' as
      else none

theorem run_of_exec [∀ evs s a, Decidable (guard evs s a)] (as : List α) :
    ∀ {evs evs' : List ε} {s s' : σ}, M.Run guard evs s →
      M.exec guard evs s as = some (evs', s') → M.Run guard evs' s' := by
  induction as with
  | nil =>
      intro evs evs' s s' hrun h
      obtain ⟨rfl, rfl⟩ := Prod.mk.inj (Option.some.inj h)
      exact hrun
  | cons a as ih =>
      intro evs evs' s s' hrun h
      rw [exec] at h
      split at h
      · rename_i hguard
        split at h
        · exact absurd h (by simp)
        · rename_i s₁ es hstep
          exact ih (hrun.step hguard hstep) h
      · exact absurd h (by simp)

/-- A list of actions that runs, and a check that what it reaches passes. -/
theorem exists_run_of_exec (M : Machine σ α ε) (guard : List ε → σ → α → Prop)
    [∀ evs s a, Decidable (guard evs s a)] (as : List α) (check : List ε → σ → Bool)
    (h : (M.exec guard [] M.start as).map (fun r => check r.1 r.2) = some true) :
    ∃ evs s, M.Run guard evs s ∧ check evs s = true := by
  cases hexec : M.exec guard [] M.start as with
  | none =>
      rw [hexec] at h
      exact absurd h (by simp)
  | some r =>
      obtain ⟨evs, s⟩ := r
      rw [hexec] at h
      exact ⟨evs, s, run_of_exec as Run.start hexec, Option.some.inj h⟩

/-- The events of the actions, in a list that is built from its end: that of a long run
can be computed. -/
def outputs (M : Machine σ α ε) : σ → List α → Option (List ε × σ)
  | s, [] => some ([], s)
  | s, a :: as =>
      match M.step s a with
      | none => none
      | some (s', es) => (outputs M s' as).map fun r => (es ++ r.1, r.2)

theorem run_of_outputs (as : List α) : ∀ {evs evs' : List ε} {s s' : σ}, M.Run free evs s →
    M.outputs s as = some (evs', s') → M.Run free (evs ++ evs') s' := by
  induction as with
  | nil =>
      intro evs evs' s s' hrun h
      obtain ⟨rfl, rfl⟩ := Prod.mk.inj (Option.some.inj h)
      rw [List.append_nil]
      exact hrun
  | cons a as ih =>
      intro evs evs' s s' hrun h
      rw [outputs] at h
      split at h
      · exact absurd h (by simp)
      · rename_i s₁ es hstep
        obtain ⟨⟨rest, s₂⟩, hrest, heq⟩ := Option.map_eq_some_iff.mp h
        obtain ⟨rfl, rfl⟩ := Prod.mk.inj heq
        rw [← List.append_assoc]
        exact ih (hrun.step trivial hstep) hrest

/-- A list of actions that can be done, and a check that its run passes. -/
theorem exists_run_of_outputs (M : Machine σ α ε) (as : List α) (check : List ε → σ → Bool)
    (h : (M.outputs M.start as).map (fun r => check r.1 r.2) = some true) :
    ∃ evs s, M.Reached evs s ∧ check evs s = true := by
  cases hout : M.outputs M.start as with
  | none =>
      rw [hout] at h
      exact absurd h (by simp)
  | some r =>
      obtain ⟨evs, s⟩ := r
      rw [hout] at h
      exact ⟨evs, s, run_of_outputs as Run.start hout, Option.some.inj h⟩

instance (evs : List ε) (s : σ) (a : α) : Decidable (free evs s a) :=
  inferInstanceAs (Decidable True)

/-- Run the actions in order, as `exec` does, and keep the steps. -/
def trace (M : Machine σ α ε) (guard : List ε → σ → α → Prop)
    [∀ evs s a, Decidable (guard evs s a)] :
    List (Taken σ α ε) → σ → List α → Option (List (Taken σ α ε) × σ)
  | hist, s, [] => some (hist, s)
  | hist, s, a :: as =>
      if guard (hist.flatMap Taken.events) s a then
        match M.step s a with
        | none => none
        | some (s', es) => trace M guard (hist ++ [⟨s, a, s', es⟩]) s' as
      else none

theorem history_of_trace [∀ evs s a, Decidable (guard evs s a)] (as : List α) :
    ∀ {hist hist' : List (Taken σ α ε)} {s s' : σ}, M.History guard hist s →
      M.trace guard hist s as = some (hist', s') → M.History guard hist' s' := by
  induction as with
  | nil =>
      intro hist hist' s s' hhist h
      obtain ⟨rfl, rfl⟩ := Prod.mk.inj (Option.some.inj h)
      exact hhist
  | cons a as ih =>
      intro hist hist' s s' hhist h
      rw [trace] at h
      split at h
      · rename_i hguard
        split at h
        · exact absurd h (by simp)
        · rename_i s₁ es hstep
          exact ih (hhist.step hguard hstep) h
      · exact absurd h (by simp)

/-- A list of actions that runs, and a check that its history passes. -/
theorem exists_history_of_trace (M : Machine σ α ε) (guard : List ε → σ → α → Prop)
    [∀ evs s a, Decidable (guard evs s a)] (as : List α)
    (check : List (Taken σ α ε) → σ → Bool)
    (h : (M.trace guard [] M.start as).map (fun r => check r.1 r.2) = some true) :
    ∃ hist s, M.History guard hist s ∧ check hist s = true := by
  cases htrace : M.trace guard [] M.start as with
  | none =>
      rw [htrace] at h
      exact absurd h (by simp)
  | some r =>
      obtain ⟨hist, s⟩ := r
      rw [htrace] at h
      exact ⟨hist, s, history_of_trace as History.start htrace, Option.some.inj h⟩

/-- Every place of a list, with what is before it. -/
theorem forall_split_iff {β : Type} {l : List β} {P : List β → β → Prop} :
    (∀ pre x post, l = pre ++ x :: post → P pre x) ↔
      ∀ n (hn : n < l.length), P (l.take n) l[n] := by
  constructor
  · intro h n hn
    refine h (l.take n) l[n] (l.drop (n + 1)) ?_
    rw [← List.drop_eq_getElem_cons hn, List.take_append_drop]
  · rintro h pre x post rfl
    have hn : pre.length < (pre ++ x :: post).length := by
      rw [List.length_append, List.length_cons]
      omega
    simpa using h pre.length hn

/-- A list around two of its places. -/
theorem split_at_two {β : Type} {l : List β} {n m : Nat} {x y : β} (hlt : n < m)
    (hx : l[n]? = some x) (hy : l[m]? = some y) :
    l = (l.take n ++ x :: (l.take m).drop (n + 1)) ++ y :: l.drop (m + 1) := by
  obtain ⟨hm, rfl⟩ := List.getElem?_eq_some_iff.mp hy
  obtain ⟨hn, rfl⟩ := List.getElem?_eq_some_iff.mp hx
  have hn' : n < (l.take m).length := by
    rw [List.length_take]
    omega
  have hfirst : l.take m = l.take n ++ l[n] :: (l.take m).drop (n + 1) := by
    have hcut := List.take_append_drop n (l.take m)
    rw [List.drop_eq_getElem_cons hn', List.take_take, Nat.min_eq_left (Nat.le_of_lt hlt),
      List.getElem_take] at hcut
    exact hcut.symm
  calc l = l.take m ++ l.drop m := (List.take_append_drop m l).symm
    _ = l.take m ++ l[m] :: l.drop (m + 1) := by rw [List.drop_eq_getElem_cons hm]
    _ = _ := by rw [← hfirst]

end Machine

end SpdyStream.Foundation
