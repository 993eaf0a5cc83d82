import TemplateAnalysis.Expr.Basic

/-! # The written form of expressions

Every operator with two or more operands is parenthesised, the two prefix operators are not.
-/

namespace TemplateAnalysis

/-- The sign of an arithmetic operation. -/
def ArithOp.sign : ArithOp → String
  | .add => "+"
  | .sub => "-"
  | .mul => "*"

/-- The sign of a comparison. -/
def CmpOp.sign : CmpOp → String
  | .lt => "<"
  | .le => "<="
  | .gt => ">"
  | .ge => ">="

/-- The sign of a connective. -/
def Connective.sign : Connective → String
  | .and => "&&"
  | .or => "||"

namespace Expr

/-- A parenthesised operation with its sign between the operands. -/
def between (a sign b : String) : String := "(" ++ a ++ " " ++ sign ++ " " ++ b ++ ")"

mutual

/-- The written form of an expression. -/
def text : Expr → String
  | .var s => s.name
  | .bool b => (Value.bool b).text
  | .int n => (Value.int n).text
  | .nondet sort => "nondet(" ++ sort.text ++ ")"
  | .arith op a b => between (text a) op.sign (text b)
  | .minus a => "-" ++ text a
  | .equation a b => between (text a) "==" (text b)
  | .cmp op a b => between (text a) op.sign (text b)
  | .negation a => "!" ++ text a
  | .junction c es => "(" ++ (" " ++ c.sign ++ " ").intercalate (texts es) ++ ")"
  | .implication a b => between (text a) "=>" (text b)
  | .conditional c a b => "(" ++ text c ++ " ? " ++ text a ++ " : " ++ text b ++ ")"

/-- The written forms of a list of expressions. -/
def texts : List Expr → List String
  | [] => []
  | e :: es => text e :: texts es

end

end Expr

end TemplateAnalysis
