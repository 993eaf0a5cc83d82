import TemplateAnalysis.Expr.Text

/-! # Template rows

A template fixes the shape of what may be found out about a procedure. Each row pairs a statement
about the state before a transition with the statement about the state after it, under the guards
where the two apply.
-/

namespace TemplateAnalysis

/-- The part a variable plays: what is assumed of inputs is used, what is claimed of outputs is
checked, and what is said about loop variables is both. -/
inductive Role where
  | input
  | output
  | loop
deriving DecidableEq

/-- The written form of a role. -/
def Role.text : Role → String
  | .input => "IN"
  | .output => "OUT"
  | .loop => "LOOP"

/-- What a row is about. -/
inductive RowShape where
  /-- a predicate before and after a transition -/
  | predicate (pre post : Expr)
  /-- the variables a ranking function may use, each before and after a transition -/
  | ranking (vars : List (Expr × Expr))
deriving DecidableEq

/-- One row of a template. -/
structure TemplateRow where
  shape : RowShape
  preGuard : Expr
  postGuard : Expr
  role : Role
  /-- the refinement level from which the row takes part -/
  tier : Nat := 0
deriving DecidableEq

namespace TemplateRow

/-- A row with a predicate. -/
def predicate (pre post preGuard postGuard : Expr) (role : Role) : TemplateRow :=
  { shape := .predicate pre post, preGuard, postGuard, role }

/-- A row for a ranking function; it is about loop variables. -/
def ranking (vars : List (Expr × Expr)) (preGuard postGuard : Expr) : TemplateRow :=
  { shape := .ranking vars, preGuard, postGuard, role := .loop }

/-- The row may be assumed of the state before a transition. -/
def isAssumed (row : TemplateRow) : Bool :=
  match row.role with
  | .output => false
  | _ => true

/-- The row has to hold of the state after a transition. -/
def isChecked (row : TemplateRow) : Bool :=
  match row.role with
  | .input => false
  | _ => true

/-- The variables of a ranking row; a predicate has none. -/
def rankingVars (row : TemplateRow) : List (Expr × Expr) :=
  match row.shape with
  | .ranking vars => vars
  | .predicate _ _ => []

/-- The written form of a row. -/
def text (row : TemplateRow) : String :=
  "(" ++ row.role.text ++ ") " ++
    match row.shape with
    | .predicate pre _ => row.preGuard.text ++ " ==> " ++ pre.text
    | .ranking vars =>
      row.preGuard.text ++ " && " ++ row.postGuard.text ++ " ==> rank(" ++
        ", ".intercalate (vars.map fun (pre, post) => pre.text ++ " -> " ++ post.text) ++ ")"

end TemplateRow

end TemplateAnalysis
