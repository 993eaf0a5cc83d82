import TemplateAnalysis.Solver.Session

/-! # Scripted sessions

A scripted session keeps its formulas and scopes like any other, but its answers are given in
advance: one for each query in turn, and undecided once they run out. Chosen scope closings fail
after they have been carried out.
-/

namespace TemplateAnalysis

/-- One answer of a script, and the model that goes with it. -/
structure ScriptedAnswer where
  outcome : Except SolverError Verdict := .ok .unknown
  model : Model := []

/-- The answers of a session, given in advance. -/
structure Script where
  answers : List ScriptedAnswer := []
  /-- which attempts to close a scope fail, counted from zero -/
  failingPops : List Nat := []

/-- A session that follows a script. -/
structure ScriptedSession where
  id : SessionId
  refine : Bool
  script : Script
  asserted : List Expr := []
  /-- for each open scope, outermost first, how many formulas were there before it -/
  scopes : List Nat := []
  solves : Nat := 0
  pops : Nat := 0
  model : Model := []

namespace ScriptedSession

variable (session : ScriptedSession)

/-- Add a formula. -/
def assert (formula : Expr) : ScriptedSession :=
  { session with asserted := session.asserted ++ [formula] }

/-- Open a scope. -/
def push : ScriptedSession :=
  { session with scopes := session.scopes ++ [session.asserted.length] }

/-- Close the innermost scope. -/
def pop : Except SolverError Unit × ScriptedSession :=
  let counted := { session with pops := session.pops + 1 }
  match session.scopes.getLast? with
  | none => (.error .scopeUnderflow, counted)
  | some mark =>
    let closed := { counted with
      asserted := session.asserted.take mark
      scopes := session.scopes.dropLast }
    if session.script.failingPops.contains session.pops then
      (.error (.backend "pop failed"), closed)
    else (.ok (), closed)

/-- Give the next answer. -/
def solve : Except SolverError Verdict × ScriptedSession :=
  let answer := (session.script.answers[session.solves]?).getD {}
  (answer.outcome, { session with solves := session.solves + 1, model := answer.model })

end ScriptedSession

instance : Solver ScriptedSession where
  id := ScriptedSession.id
  assert formula session := session.assert formula
  push := ScriptedSession.push
  pop := ScriptedSession.pop
  solve := ScriptedSession.solve
  valuation session := session.model.valuation

end TemplateAnalysis
