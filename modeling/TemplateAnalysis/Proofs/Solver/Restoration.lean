import TemplateAnalysis.Proofs.Analysis
import TemplateAnalysis.Proofs.Solver.Scopes

/-! # Explorations leave their session as they found it

Every query asserts its formulas in a scope of its own and closes the scope again, whether the query
is answered, stays open or fails, and whether closing is said to have worked. So an exploration that
comes to an end, with a status or with a failure of the solver, leaves in the session what it found
there. The only other way to end is a question about a row without an entry, and it is not returned
from.
-/

namespace TemplateAnalysis

/-- The outcome is not that a question was abandoned at a row without an entry. -/
def Returns {α : Type} (outcome : Except Failure α) : Prop :=
  ∀ row, outcome ≠ .error (.missingRow row)

theorem returns_ok {α : Type} (a : α) : Returns (.ok a) := by
  rintro row ⟨⟩

theorem returns_error {α β : Type} {failure : Failure}
    (returns : Returns (.error failure : Except Failure α)) :
    Returns (.error failure : Except Failure β) := by
  rintro row ⟨⟩
  exact returns row rfl

namespace Run

open ScopedSolver

variable {δ ι V σ : Type} [Solver σ] [ScopedSolver σ] [TemplateDomain δ ι V]
  {run : Run ι V σ} {scope : List Expr} {outer : List (List Expr)}

/-- All scopes but the innermost one are the given ones. -/
def Within (outer : List (List Expr)) (run : Run ι V σ) : Prop :=
  ∃ inner, scopes run.session = inner :: outer

omit [TemplateDomain δ ι V] in
theorem Within.assert (within : run.Within outer) (formula : Expr) :
    (run.assert formula).Within outer := by
  obtain ⟨inner, kept⟩ := within
  exact ⟨_, scopes_assert kept formula⟩

omit [TemplateDomain δ ι V] in
theorem Within.solve (within : run.Within outer) : run.solve.2.Within outer := by
  obtain ⟨inner, kept⟩ := within
  exact ⟨inner, (scopes_solve run.session).trans kept⟩

theorem Within.pose (within : run.Within outer) (template : δ) :
    (run.pose template).2.Within outer := by
  have asserts : ∀ (rows : List (Nat × Symbol × Expr)) (run : Run ι V σ), run.Within outer →
      (rows.foldl (fun run row => run.assert (Expr.equal (.var row.2.1) row.2.2)) run).Within
        outer := by
    intro rows
    induction rows with
    | nil => exact fun _ within => within
    | cons row rest ih => exact fun run within => ih _ (within.assert _)
  unfold Run.pose
  split
  · exact within
  · dsimp only
    split
    · exact within.assert _
    · exact asserts _ _ (within.assert _)

theorem Within.settle (within : run.Within outer) (template : δ)
    (rows : List (Nat × Symbol × Expr)) : (run.settle template rows).2.Within outer := by
  have asked := (within.assert (someViolated rows)).solve
  unfold Run.settle
  split
  · exact within
  · split
    · next solved => exact (Prod.mk.inj solved).2 ▸ asked
    · next solved =>
      rw [Within, session_refuteAll]
      exact (Prod.mk.inj solved).2 ▸ asked
    · next solved => exact (Prod.mk.inj solved).2 ▸ asked
    · next solved => exact (Prod.mk.inj solved).2 ▸ asked

theorem Within.query (within : run.Within outer) (template : δ) :
    (run.query template).2.Within outer := by
  have posed := within.pose template
  unfold Run.query
  generalize run.pose template = asking at posed ⊢
  obtain ⟨outcome, asking⟩ := asking
  cases outcome with
  | error failure => exact posed
  | ok rows => exact posed.settle template rows

variable {template : δ} {last : Run ι V σ}

/-- A query that is returned from leaves the scopes as they were. -/
theorem scopes_iterate {outcome : Except Failure Bool}
    (ended : run.iterate template = (outcome, last)) (returns : Returns outcome)
    (kept : scopes run.session = scope :: outer) : scopes last.session = scope :: outer := by
  have opened : ({ run with iterations := run.iterations + 1 } : Run ι V σ).push.Within
      (scope :: outer) := ⟨[], scopes_push kept⟩
  obtain ⟨inner, asking⟩ := opened.query template
  have closed := scopes_pop asking
  unfold iterate at ended
  split at ended
  · next row _ _ =>
    obtain ⟨rfl, -⟩ := Prod.mk.inj ended
    exact absurd rfl (returns row)
  · next queried =>
    obtain ⟨-, rfl⟩ := Prod.mk.inj ended
    rw [queried] at closed
    exact closed
  · next queried =>
    rw [queried] at closed
    split at ended
    · next popped =>
      obtain ⟨-, rfl⟩ := Prod.mk.inj ended
      exact (Prod.mk.inj popped).2 ▸ closed
    · next popped =>
      obtain ⟨-, rfl⟩ := Prod.mk.inj ended
      exact (Prod.mk.inj popped).2 ▸ closed

theorem scopes_round {outcome : Except Failure Bool}
    (ended : run.round template = (outcome, last)) (returns : Returns outcome)
    (kept : scopes run.session = scope :: outer) : scopes last.session = scope :: outer := by
  unfold round at ended
  split at ended
  · next row _ _ =>
    obtain ⟨rfl, -⟩ := Prod.mk.inj ended
    exact absurd rfl (returns row)
  · next iterated =>
    obtain ⟨rfl, rfl⟩ := Prod.mk.inj ended
    have restored := scopes_iterate iterated returns kept
    exact restored

variable [FiniteDomain δ ι V]

theorem scopes_fixpoint {outcome : Except Failure Unit}
    (ended : run.fixpoint template = (outcome, last)) (returns : Returns outcome)
    (kept : scopes run.session = scope :: outer) : scopes last.session = scope :: outer := by
  suffices restored : Returns (run.fixpoint template).1 →
      scopes (run.fixpoint template).2.session = scope :: outer by
    rw [ended] at restored
    exact restored returns
  refine fixpoint_ends (fun run => scopes run.session = scope :: outer)
    (fun outcome last => Returns outcome → scopes last.session = scope :: outer) ?_ ?_ ?_ ?_ kept
  · intro run next failure kept _ failed returns
    exact scopes_round failed (returns_error returns) kept
  · intro run next kept _ rounded
    exact scopes_round rounded (returns_ok _) kept
  · intro run next kept _ rounded _
    exact scopes_round rounded (returns_ok _) kept
  · intro run kept _ _
    exact kept

/-- An exploration that is returned from leaves the scopes as they were. -/
theorem scopes_explore {outcome : Except Failure Status} {larger : δ}
    (ended : run.explore template = (outcome, larger, last)) (returns : Returns outcome)
    (kept : scopes run.session = scope :: outer) : scopes last.session = scope :: outer := by
  suffices restored : Returns (run.explore template).1 →
      scopes (run.explore template).2.2.session = scope :: outer by
    rw [ended] at restored
    exact restored returns
  refine explore_ends (fun _ run => scopes run.session = scope :: outer)
    (fun outcome _ last => Returns outcome → scopes last.session = scope :: outer)
    ?_ ?_ ?_ ?_ run kept
  · intro template run last failure kept failed returns
    exact scopes_fixpoint failed (returns_error returns) kept
  · intro template run last kept fixed _ _
    exact scopes_fixpoint fixed (returns_ok _) kept
  · intro template run last kept fixed _ _ _
    exact scopes_fixpoint fixed (returns_ok _) kept
  · intro template larger run last search kept fixed _ _
    have restored := scopes_fixpoint fixed (returns_ok _) kept
    exact restored

end Run

end TemplateAnalysis
