import TemplateAnalysis.Solver.Enumerative
import TemplateAnalysis.Solver.Scripted

/-! # Supplies of sessions

A supply opens sessions of one kind, one after the other, under its own name. The sessions of a
scripted supply follow its scripts in turn, and the last script serves for all later ones.
-/

namespace TemplateAnalysis

/-- A session of either kind. -/
inductive Session where
  | scripted (session : ScriptedSession)
  | enumerative (session : EnumerativeSession)

namespace Session

/-- The identity of a session. -/
def id : Session → SessionId
  | .scripted session => session.id
  | .enumerative session => session.id

/-- Add a formula. -/
def assert (formula : Expr) : Session → Session
  | .scripted session => .scripted (session.assert formula)
  | .enumerative session => .enumerative (session.assert formula)

/-- Open a scope. -/
def push : Session → Session
  | .scripted session => .scripted session.push
  | .enumerative session => .enumerative session.push

/-- Close the innermost scope. -/
def pop : Session → Except SolverError Unit × Session
  | .scripted session =>
    let (answer, session) := session.pop
    (answer, .scripted session)
  | .enumerative session =>
    let (answer, session) := session.pop
    (answer, .enumerative session)

/-- Ask for a model. -/
def solve : Session → Except SolverError Verdict × Session
  | .scripted session =>
    let (answer, session) := session.solve
    (answer, .scripted session)
  | .enumerative session =>
    let (answer, session) := session.solve
    (answer, .enumerative session)

/-- The model of the last answer. -/
def model : Session → Model
  | .scripted session => session.model
  | .enumerative session => session.model

end Session

instance : Solver Session where
  id := Session.id
  assert := Session.assert
  push := Session.push
  pop := Session.pop
  solve := Session.solve
  valuation session := session.model.valuation

/-- The kind of sessions a supply opens. -/
inductive SupplyKind where
  | enumerative
  | scripted (scripts : List Script)

/-- A supply of sessions. -/
structure Supply where
  owner : String
  kind : SupplyKind
  opened : Nat := 0

namespace Supply

/-- The script of the `k`-th session. -/
def scriptOf (scripts : List Script) (k : Nat) : Script :=
  match scripts[k]? with
  | some script => script
  | none => scripts.getLast?.getD {}

/-- Open the next session. -/
def allocate (refine : Bool) (supply : Supply) : Session × Supply :=
  let id : SessionId := ⟨supply.owner, supply.opened⟩
  let session : Session :=
    match supply.kind with
    | .enumerative => .enumerative { id }
    | .scripted scripts => .scripted { id, refine, script := scriptOf scripts supply.opened }
  (session, { supply with opened := supply.opened + 1 })

end Supply

instance : SessionSource Supply Session where
  allocate := Supply.allocate

end TemplateAnalysis
