import TemplateAnalysis.Proofs.Solver.Sessions

/-! # Sessions that decide every query

A session that knows whether what it holds has a model, and which. It need not be possible to
compute its answers: that there is such a session shows that what is proved about sessions that
decide every query is about something.
-/

namespace TemplateAnalysis

/-- A session that knows everything. -/
structure DecidingSession where
  /-- the open scopes, innermost first -/
  scopes : List (List Expr) := [[]]
  found : Valuation := fun _ => none

namespace DecidingSession

/-- Add a formula to the innermost scope. -/
def assert (formula : Expr) (session : DecidingSession) : DecidingSession :=
  match session.scopes with
  | [] => { session with scopes := [[formula]] }
  | scope :: outer => { session with scopes := (formula :: scope) :: outer }

/-- Close the innermost scope, unless it is the only one. -/
def pop (session : DecidingSession) : Except SolverError Unit × DecidingSession :=
  match session.scopes with
  | _ :: next :: outer => (.ok (), { session with scopes := next :: outer })
  | _ => (.error .scopeUnderflow, session)

open Classical in
/-- Answer with a model if there is one. -/
noncomputable def solve (session : DecidingSession) :
    Except SolverError Verdict × DecidingSession :=
  if known : ∃ m : Assignment, m.Satisfies session.scopes.flatten then
    (.ok .sat, { session with found := known.choose.valuation })
  else (.ok .unsat, session)

end DecidingSession

noncomputable instance : Solver DecidingSession where
  id _ := ⟨"deciding", 0⟩
  assert := DecidingSession.assert
  push session := { session with scopes := [] :: session.scopes }
  pop := DecidingSession.pop
  solve := DecidingSession.solve
  valuation session := session.found

namespace DecidingSession

variable {scopes : List (List Expr)} {session : DecidingSession}

theorem solve_cases (session : DecidingSession) :
    (∃ m : Assignment, m.Satisfies session.scopes.flatten ∧
      session.solve = (.ok .sat, { session with found := m.valuation })) ∨
    ((∀ m : Assignment, ¬ m.Satisfies session.scopes.flatten) ∧
      session.solve = (.ok .unsat, session)) := by
  unfold solve
  split
  · next known => exact .inl ⟨known.choose, known.choose_spec, rfl⟩
  · next unknown => exact .inr ⟨not_exists.mp unknown, rfl⟩

theorem scopes_of_holds (holds : Solver.Holds ({} : DecidingSession) scopes session) :
    session.scopes = scopes := by
  induction holds with
  | opened => rfl
  | assert formula _ ih =>
    change (DecidingSession.assert _ _).scopes = _
    rw [DecidingSession.assert, ih]
  | push _ ih => exact congrArg (List.cons []) ih
  | pop _ _ ih =>
    change (DecidingSession.pop _).2.scopes = _
    rw [DecidingSession.pop, ih]
  | @solve _ session _ ih =>
    change session.solve.2.scopes = _
    rcases session.solve_cases with ⟨m, -, answer⟩ | ⟨-, answer⟩
    · rw [answer]
      exact ih
    · rw [answer]
      exact ih

theorem decides : Solver.Decides ({} : DecidingSession) where
  answers scopes session _ := by
    change session.solve.1 = _ ∨ session.solve.1 = _
    rcases session.solve_cases with ⟨m, -, answer⟩ | ⟨-, answer⟩
    · exact .inl (by rw [answer])
    · exact .inr (by rw [answer])
  unsat scopes session holds answered m := by
    change session.solve.1 = _ at answered
    rcases session.solve_cases with ⟨m, -, answer⟩ | ⟨none, -⟩
    · rw [answer] at answered
      cases answered
    · rw [← scopes_of_holds holds]
      exact none m
  sat scopes session holds answered := by
    change session.solve.1 = _ at answered
    change ∀ formula ∈ _, Expr.eval session.solve.2.found formula = _
    rcases session.solve_cases with ⟨m, satisfies, answer⟩ | ⟨-, answer⟩
    · rw [answer, ← scopes_of_holds holds]
      exact satisfies
    · rw [answer] at answered
      cases answered
  exists_model scopes session holds answered := by
    change session.solve.1 = _ at answered
    rcases session.solve_cases with ⟨m, satisfies, -⟩ | ⟨-, answer⟩
    · rw [← scopes_of_holds holds]
      exact ⟨m, satisfies⟩
    · rw [answer] at answered
      cases answered
  closes scope next outer session holds := by
    change session.pop.1 = _
    rw [DecidingSession.pop, scopes_of_holds holds]

end DecidingSession

end TemplateAnalysis
