import TemplateAnalysis.Expr.Text

/-! # Solver sessions

A session holds asserted formulas in nested scopes and can be asked whether they have a model. What
it answers is up to the solver, and it may fail. What is asked of sessions is written down in a
transcript, across sessions in the order in which it happened.
-/

namespace TemplateAnalysis

/-- What a solver says about the asserted formulas. -/
inductive Verdict where
  | sat
  | unsat
  | unknown
deriving DecidableEq

/-- The written form of a verdict. -/
def Verdict.text : Verdict → String
  | .sat => "sat"
  | .unsat => "unsat"
  | .unknown => "unknown"

/-- How a session fails. -/
inductive SolverError where
  | backend (reason : String)
  | scopeUnderflow
deriving DecidableEq

/-- The wording of a failure. -/
def SolverError.message : SolverError → String
  | .backend reason => "solver backend failed: " ++ reason
  | .scopeUnderflow => "pop without matching push"

/-- The identity of a session: who opened it, and the how-manieth it was. -/
structure SessionId where
  owner : String
  number : Nat
deriving DecidableEq

/-- The written form of an identity. -/
def SessionId.text (id : SessionId) : String := id.owner ++ "." ++ toString id.number

/-- An incremental solver session. -/
class Solver (σ : Type) where
  id : σ → SessionId
  /-- add a formula to the innermost scope -/
  assert : Expr → σ → σ
  /-- open a scope -/
  push : σ → σ
  /-- close the innermost scope and forget its formulas -/
  pop : σ → Except SolverError Unit × σ
  /-- ask for a model of the asserted formulas -/
  solve : σ → Except SolverError Verdict × σ
  /-- the model of the last answer -/
  valuation : σ → Valuation

/-- Something that opens sessions. -/
class SessionSource (φ : Type) (σ : outParam Type) where
  /-- open a session, with or without support for refinement -/
  allocate : Bool → φ → σ × φ

/-- What was asked of a session. -/
inductive Action where
  | allocated (refine : Bool)
  | asserted (formula : Expr)
  | pushed
  | popped (answer : Except SolverError Unit)
  | solved (answer : Except SolverError Verdict)

/-- The written form of an action. -/
def Action.text : Action → String
  | .allocated refine => "alloc refine=" ++ (Value.bool refine).text
  | .asserted formula => "assert " ++ formula.text
  | .pushed => "push"
  | .popped _ => "pop"
  | .solved (.ok verdict) => "solve " ++ verdict.text
  | .solved (.error _) => "solve error"

/-- An action on a session. -/
structure Event where
  session : SessionId
  action : Action

/-- The written form of an event. -/
def Event.text (event : Event) : String := event.session.text ++ " " ++ event.action.text

/-- What was asked of sessions, in order. -/
abbrev Transcript := List Event

/-- The session that is held already, or else a new one, with what is left of the source. -/
def SessionSource.obtain {φ σ : Type} [Solver σ] [SessionSource φ σ] (refine : Bool)
    (held : Option σ) (source : φ) : σ × φ × Transcript :=
  match held with
  | some session => (session, source, [])
  | none =>
    let (session, source) := SessionSource.allocate refine source
    (session, source, [⟨Solver.id session, .allocated refine⟩])

end TemplateAnalysis
