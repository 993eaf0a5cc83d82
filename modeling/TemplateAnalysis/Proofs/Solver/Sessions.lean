import TemplateAnalysis.Proofs.Expr.Sorted
import TemplateAnalysis.Solver.Session

/-! # What sessions hold

What a session holds is told from the calls made to it: the formulas asserted in the scopes that are
open. Nothing is assumed about how a session keeps them. A session is sound if its answers are right
for whatever it holds, after any calls.
-/

namespace TemplateAnalysis.Solver

variable {σ : Type} [Solver σ]

/-- The scopes of a session, innermost first, with the formulas asserted in each, after some calls
to a session that has just been opened. -/
inductive Holds (opened : σ) : List (List Expr) → σ → Prop
  | opened : Holds opened [[]] opened
  | assert {scope : List Expr} {outer : List (List Expr)} {session : σ} (formula : Expr)
      (holds : Holds opened (scope :: outer) session) :
      Holds opened ((formula :: scope) :: outer) (Solver.assert formula session)
  | push {scopes : List (List Expr)} {session : σ} (holds : Holds opened scopes session) :
      Holds opened ([] :: scopes) (Solver.push session)
  | pop {scope next : List Expr} {outer : List (List Expr)} {session : σ}
      (holds : Holds opened (scope :: next :: outer) session)
      (closed : (Solver.pop session).1 = .ok ()) :
      Holds opened (next :: outer) (Solver.pop session).2
  | solve {scopes : List (List Expr)} {session : σ} (holds : Holds opened scopes session) :
      Holds opened scopes (Solver.solve session).2

/-- The session answers `unsat` only if no assignment satisfies all that it holds. -/
def UnsatSound (opened : σ) : Prop :=
  ∀ scopes session, Holds opened scopes session → (Solver.solve session).1 = .ok .unsat →
    ∀ m : Assignment, ¬ m.Satisfies scopes.flatten

/-- The session answers `sat` only with a valuation that makes all that it holds true. -/
def SatSound (opened : σ) : Prop :=
  ∀ scopes session, Holds opened scopes session → (Solver.solve session).1 = .ok .sat →
    ∀ formula ∈ scopes.flatten,
      formula.eval (Solver.valuation (Solver.solve session).2) = some (.bool true)

/-- The session answers every query, `sat` with a valuation that makes all that it holds true if
some assignment does so, and `unsat` otherwise, and it closes every scope that is open. -/
structure Decides (opened : σ) : Prop where
  answers : ∀ scopes session, Holds opened scopes session →
    (Solver.solve session).1 = .ok .sat ∨ (Solver.solve session).1 = .ok .unsat
  unsat : UnsatSound opened
  sat : SatSound opened
  exists_model : ∀ scopes session, Holds opened scopes session →
    (Solver.solve session).1 = .ok .sat → ∃ m : Assignment, m.Satisfies scopes.flatten
  closes : ∀ scope next outer session, Holds opened (scope :: next :: outer) session →
    (Solver.pop session).1 = .ok ()

namespace Holds

variable {opened session : σ}

theorem exists_cons {scopes : List (List Expr)} (holds : Holds opened scopes session) :
    ∃ scope outer, scopes = scope :: outer := by
  induction holds with
  | solve _ ih => exact ih
  | _ => exact ⟨_, _, rfl⟩

theorem assertAll {scope : List Expr} {outer : List (List Expr)}
    (holds : Holds opened (scope :: outer) session) (formulas : List Expr) :
    Holds opened ((formulas.reverse ++ scope) :: outer)
      (formulas.foldl (fun session formula => Solver.assert formula session) session) := by
  induction formulas generalizing scope session with
  | nil => exact holds
  | cons formula rest ih =>
    rw [List.reverse_cons, List.append_assoc]
    exact ih (holds.assert formula)

end Holds

end TemplateAnalysis.Solver
