import TemplateAnalysis.Expr.Basic

/-! # Evaluation

Evaluation under a partial valuation has three outcomes: a value, or none because the result hangs
on a symbol without a value, a `nondet` leaf or an operand of the wrong sort. A connective answers
as soon as one operand decides it, whatever the others are. An undecided condition does not matter
when both branches have the same value.
-/

namespace TemplateAnalysis

/-- Wrapping 64-bit arithmetic. -/
def ArithOp.apply : ArithOp → Int64 → Int64 → Int64
  | .add, m, n => m + n
  | .sub, m, n => m - n
  | .mul, m, n => m * n

/-- Signed comparison. -/
def CmpOp.apply : CmpOp → Int64 → Int64 → Bool
  | .lt, m, n => decide (m < n)
  | .le, m, n => decide (m ≤ n)
  | .gt, m, n => decide (n < m)
  | .ge, m, n => decide (n ≤ m)

namespace Expr

mutual

/-- The value of an expression, where it is known. -/
def eval (v : Valuation) : Expr → Option Value
  | .var s => v s
  | .bool b => some (.bool b)
  | .int n => some (.int n)
  | .nondet _ => none
  | .arith op a b =>
    match (eval v a).bind Value.toInt?, (eval v b).bind Value.toInt? with
    | some m, some n => some (.int (op.apply m n))
    | _, _ => none
  | .minus a =>
    match (eval v a).bind Value.toInt? with
    | some n => some (.int (-n))
    | none => none
  | .equation a b =>
    match eval v a, eval v b with
    | some x, some y => some (.bool (decide (x = y)))
    | _, _ => none
  | .cmp op a b =>
    match (eval v a).bind Value.toInt?, (eval v b).bind Value.toInt? with
    | some m, some n => some (.bool (op.apply m n))
    | _, _ => none
  | .negation a =>
    match (eval v a).bind Value.toBool? with
    | some b => some (.bool !b)
    | none => none
  | .junction c es => evalJunction v c es
  | .implication a b =>
    match (eval v a).bind Value.toBool?, (eval v b).bind Value.toBool? with
    | some false, _ => some (.bool true)
    | _, some true => some (.bool true)
    | some true, some false => some (.bool false)
    | _, _ => none
  | .conditional c a b =>
    match (eval v c).bind Value.toBool? with
    | some true => eval v a
    | some false => eval v b
    | none =>
      match eval v a, eval v b with
      | some x, some y => if x = y then some x else none
      | _, _ => none

/-- The value of a conjunction or disjunction: one deciding operand is enough, and otherwise all
operands must be known. -/
def evalJunction (v : Valuation) (c : Connective) : List Expr → Option Value
  | [] => some (.bool c.neutral)
  | e :: es =>
    match (eval v e).bind Value.toBool? with
    | some b => if b = c.neutral then evalJunction v c es else some (.bool b)
    | none =>
      match evalJunction v c es with
      | some (.bool b) => if b = c.neutral then none else some (.bool b)
      | _ => none

end

/-- The truth value of an expression, where it is known to have one. -/
def evalBool (v : Valuation) (e : Expr) : Option Bool := (e.eval v).bind Value.toBool?

/-- The integer value of an expression, where it is known to have one. -/
def evalInt (v : Valuation) (e : Expr) : Option Int64 := (e.eval v).bind Value.toInt?

end Expr

end TemplateAnalysis
