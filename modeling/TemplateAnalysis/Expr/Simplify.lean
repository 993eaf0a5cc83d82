import TemplateAnalysis.Expr.Basic

/-! # Constructors that simplify

Each function here builds one kind of expression from its operands and folds what can be seen at
the top: constant operands, neutral and absorbing ones, double negations, and nested conjunctions
and disjunctions by one level. Operands are never looked into any further.
-/

namespace TemplateAnalysis.Expr

/-- The sum. Zero is dropped. -/
def add : Expr → Expr → Expr
  | .int m, .int n => .int (m + n)
  | a, b => if b = .int 0 then a else if a = .int 0 then b else .arith .add a b

/-- The difference. A zero on the right is dropped. -/
def sub : Expr → Expr → Expr
  | .int m, .int n => .int (m - n)
  | a, b => if b = .int 0 then a else .arith .sub a b

/-- The product. Zero absorbs, one is dropped. -/
def mul : Expr → Expr → Expr
  | .int m, .int n => .int (m * n)
  | a, b =>
    if b = .int 0 ∨ a = .int 0 then .int 0
    else if b = .int 1 then a
    else if a = .int 1 then b
    else .arith .mul a b

/-- The additive inverse. -/
def neg : Expr → Expr
  | .int n => .int (-n)
  | .minus a => a
  | a => .minus a

/-- The equation of two terms; two constants of one sort are compared at once. -/
def equal : Expr → Expr → Expr
  | .int m, .int n => .bool (decide (m = n))
  | .bool b, .bool c => .bool (decide (b = c))
  | a, b => .equation a b

/-- The comparison `a < b`. -/
def lt : Expr → Expr → Expr
  | .int m, .int n => .bool (decide (m < n))
  | a, b => .cmp .lt a b

/-- The comparison `a ≤ b`. -/
def le : Expr → Expr → Expr
  | .int m, .int n => .bool (decide (m ≤ n))
  | a, b => .cmp .le a b

/-- The comparison `a > b`. -/
def gt : Expr → Expr → Expr
  | .int m, .int n => .bool (decide (n < m))
  | a, b => .cmp .gt a b

/-- The comparison `a ≥ b`. -/
def ge : Expr → Expr → Expr
  | .int m, .int n => .bool (decide (n ≤ m))
  | a, b => .cmp .ge a b

/-- The negation. -/
def not : Expr → Expr
  | .bool b => .bool !b
  | .negation a => a
  | a => .negation a

/-- The operands a list contributes to a conjunction or disjunction: neutral constants drop out and
operands of the same connective are spliced in. There are none when some operand decides the
whole. -/
def operands? (c : Connective) : List Expr → Option (List Expr)
  | [] => some []
  | .bool b :: es => if b = c.neutral then operands? c es else none
  | .junction d inner :: es =>
    if d = c then (operands? c es).map (inner ++ ·)
    else (operands? c es).map (.junction d inner :: ·)
  | e :: es => (operands? c es).map (e :: ·)

/-- The conjunction or disjunction of a list, without a node where at most one operand is left. -/
def join (c : Connective) (es : List Expr) : Expr :=
  match operands? c es with
  | none => .bool !c.neutral
  | some [] => .bool c.neutral
  | some [e] => e
  | some rest => .junction c rest

/-- The conjunction of a list. -/
def conj (es : List Expr) : Expr := join .and es

/-- The disjunction of a list. -/
def disj (es : List Expr) : Expr := join .or es

/-- The conjunction of two expressions. -/
def and (a b : Expr) : Expr := conj [a, b]

/-- The disjunction of two expressions. -/
def or (a b : Expr) : Expr := disj [a, b]

/-- The implication. -/
def implies : Expr → Expr → Expr
  | .bool false, _ => .bool true
  | _, .bool true => .bool true
  | .bool true, e => e
  | e, .bool false => e.not
  | a, b => .implication a b

/-- The choice between two expressions. -/
def ite : Expr → Expr → Expr → Expr
  | .bool true, a, _ => a
  | .bool false, _, b => b
  | c, a, b => if a = b then a else .conditional c a b

end TemplateAnalysis.Expr
