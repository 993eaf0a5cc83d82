import TemplateAnalysis.Symbol

/-! # Expressions

Formulas and terms are trees over symbols and constants. Nothing forces an expression to be well
sorted; `Expr.sort` reports the sort an expression has if it is. Conjunctions and disjunctions take
a list of operands, so functions on expressions come with a companion on lists, and
`Expr.induction` gives the induction principle in which the operands of a list are covered by a
hypothesis on its members.
-/

namespace TemplateAnalysis

/-- Arithmetic with two operands. -/
inductive ArithOp where
  | add
  | sub
  | mul
deriving DecidableEq, Hashable

/-- Order comparisons of integers. -/
inductive CmpOp where
  | lt
  | le
  | gt
  | ge
deriving DecidableEq, Hashable

/-- The connectives that take any number of operands. -/
inductive Connective where
  | and
  | or
deriving DecidableEq, Hashable

/-- The operand that changes nothing; its negation decides the whole. -/
def Connective.neutral : Connective → Bool
  | .and => true
  | .or => false

/-- Expressions over symbols. A `nondet` leaf stands for some value of its sort, and every
occurrence is a choice of its own. -/
inductive Expr where
  | var (s : Symbol)
  | bool (b : Bool)
  | int (n : Int64)
  | nondet (sort : ValueSort)
  | arith (op : ArithOp) (a b : Expr)
  | minus (a : Expr)
  | equation (a b : Expr)
  | cmp (op : CmpOp) (a b : Expr)
  | negation (a : Expr)
  | junction (c : Connective) (operands : List Expr)
  | implication (a b : Expr)
  | conditional (c a b : Expr)

namespace Expr

/-- Induction on expressions, with a hypothesis for each operand of a conjunction or
disjunction. -/
theorem induction {motive : Expr → Prop}
    (var : ∀ s, motive (.var s)) (bool : ∀ b, motive (.bool b)) (int : ∀ n, motive (.int n))
    (nondet : ∀ sort, motive (.nondet sort))
    (arith : ∀ op a b, motive a → motive b → motive (.arith op a b))
    (minus : ∀ a, motive a → motive (.minus a))
    (equation : ∀ a b, motive a → motive b → motive (.equation a b))
    (cmp : ∀ op a b, motive a → motive b → motive (.cmp op a b))
    (negation : ∀ a, motive a → motive (.negation a))
    (junction : ∀ c operands, (∀ e ∈ operands, motive e) → motive (.junction c operands))
    (implication : ∀ a b, motive a → motive b → motive (.implication a b))
    (conditional : ∀ c a b, motive c → motive a → motive b → motive (.conditional c a b))
    (e : Expr) : motive e :=
  @Expr.rec motive (fun es => ∀ e ∈ es, motive e)
    var bool int nondet arith minus equation cmp negation junction implication conditional
    (fun _ member => absurd member List.not_mem_nil)
    (fun _ _ head tail _ member =>
      (List.mem_cons.mp member).elim (fun same => same ▸ head) (tail _)) e

mutual

/-- Equality of expressions as a test. -/
def same : Expr → Expr → Bool
  | .var s, .var t => s == t
  | .bool b, .bool c => b == c
  | .int m, .int n => m == n
  | .nondet s, .nondet t => s == t
  | .arith o a b, .arith p c d => o == p && same a c && same b d
  | .minus a, .minus b => same a b
  | .equation a b, .equation c d => same a c && same b d
  | .cmp o a b, .cmp p c d => o == p && same a c && same b d
  | .negation a, .negation b => same a b
  | .junction c es, .junction d fs => c == d && sameAll es fs
  | .implication a b, .implication c d => same a c && same b d
  | .conditional c a b, .conditional d e f => same c d && same a e && same b f
  | _, _ => false

/-- Equality of lists of expressions as a test. -/
def sameAll : List Expr → List Expr → Bool
  | [], [] => true
  | e :: es, f :: fs => same e f && sameAll es fs
  | _, _ => false

end

theorem sameAll_iff {es : List Expr} (operand : ∀ e ∈ es, ∀ f, same e f = true ↔ e = f)
    (fs : List Expr) : sameAll es fs = true ↔ es = fs := by
  induction es generalizing fs with
  | nil => cases fs <;> simp [sameAll]
  | cons e es ih =>
    cases fs with
    | nil => simp [sameAll]
    | cons f fs =>
      have head := operand e List.mem_cons_self f
      have tail := ih (fun g member => operand g (List.mem_cons_of_mem e member)) fs
      simp [sameAll, head, tail]

/-- The test accepts exactly equal expressions. -/
theorem same_iff (e f : Expr) : same e f = true ↔ e = f := by
  induction e using Expr.induction generalizing f with
  | junction c es ih =>
    cases f <;> simp [same]
    next d fs => simp [sameAll_iff ih fs]
  | var s => cases f <;> simp [same]
  | bool b => cases f <;> simp [same]
  | int n => cases f <;> simp [same]
  | nondet sort => cases f <;> simp [same]
  | arith op a b ha hb => cases f <;> simp [same, ha, hb, and_assoc]
  | minus a ha => cases f <;> simp [same, ha]
  | equation a b ha hb => cases f <;> simp [same, ha, hb]
  | cmp op a b ha hb => cases f <;> simp [same, ha, hb, and_assoc]
  | negation a ha => cases f <;> simp [same, ha]
  | implication a b ha hb => cases f <;> simp [same, ha, hb]
  | conditional c a b hc ha hb => cases f <;> simp [same, hc, ha, hb, and_assoc]

instance : DecidableEq Expr := fun e f => decidable_of_iff (same e f = true) (same_iff e f)

instance : Inhabited Expr := ⟨.bool true⟩

/-- The expression is the constant `true`. -/
def isTrue : Expr → Bool
  | .bool b => b
  | _ => false

/-- The expression is the constant `false`. -/
def isFalse : Expr → Bool
  | .bool b => !b
  | _ => false

/-- The expression is one of the two truth constants. -/
def isConstant (e : Expr) : Bool := e.isTrue || e.isFalse

/-- The symbol, if the expression is just that. -/
def symbol? : Expr → Option Symbol
  | .var s => some s
  | _ => none

/-- The sort of an expression, if it is well sorted. -/
def sort : Expr → ValueSort
  | .var s => s.sort
  | .bool _ => .bool
  | .int _ => .int
  | .nondet sort => sort
  | .arith _ _ _ => .int
  | .minus _ => .int
  | .equation _ _ => .bool
  | .cmp _ _ _ => .bool
  | .negation _ => .bool
  | .junction _ _ => .bool
  | .implication _ _ => .bool
  | .conditional _ a _ => a.sort

/-- The immediate subexpressions, in order. -/
def children : Expr → List Expr
  | .var _ => []
  | .bool _ => []
  | .int _ => []
  | .nondet _ => []
  | .arith _ a b => [a, b]
  | .minus a => [a]
  | .equation a b => [a, b]
  | .cmp _ a b => [a, b]
  | .negation a => [a]
  | .junction _ es => es
  | .implication a b => [a, b]
  | .conditional c a b => [c, a, b]

mutual

/-- Every occurrence of a symbol, from left to right. -/
def occurrences : Expr → List Symbol
  | .var s => [s]
  | .bool _ => []
  | .int _ => []
  | .nondet _ => []
  | .arith _ a b => occurrences a ++ occurrences b
  | .minus a => occurrences a
  | .equation a b => occurrences a ++ occurrences b
  | .cmp _ a b => occurrences a ++ occurrences b
  | .negation a => occurrences a
  | .junction _ es => occurrencesAll es
  | .implication a b => occurrences a ++ occurrences b
  | .conditional c a b => occurrences c ++ occurrences a ++ occurrences b

/-- The occurrences in a list of expressions, one expression after the other. -/
def occurrencesAll : List Expr → List Symbol
  | [] => []
  | e :: es => occurrences e ++ occurrencesAll es

end

/-- The symbols of an expression, in order. -/
def symbols (e : Expr) : SymbolSet := .ofList e.occurrences

mutual

/-- Some value is left open by a `nondet` leaf. -/
def hasNondet : Expr → Bool
  | .nondet _ => true
  | .var _ => false
  | .bool _ => false
  | .int _ => false
  | .arith _ a b => hasNondet a || hasNondet b
  | .minus a => hasNondet a
  | .equation a b => hasNondet a || hasNondet b
  | .cmp _ a b => hasNondet a || hasNondet b
  | .negation a => hasNondet a
  | .junction _ es => anyNondet es
  | .implication a b => hasNondet a || hasNondet b
  | .conditional c a b => hasNondet c || hasNondet a || hasNondet b

/-- Some expression of a list leaves a value open. -/
def anyNondet : List Expr → Bool
  | [] => false
  | e :: es => hasNondet e || anyNondet es

end

theorem occurrencesAll_eq_flatMap (es : List Expr) :
    occurrencesAll es = es.flatMap occurrences := by
  induction es with
  | nil => rfl
  | cons e es ih => simp [occurrencesAll, ih]

theorem anyNondet_eq_any (es : List Expr) : anyNondet es = es.any hasNondet := by
  induction es with
  | nil => rfl
  | cons e es ih => simp [anyNondet, ih]

@[simp] theorem mem_symbols {s : Symbol} {e : Expr} : s ∈ e.symbols ↔ s ∈ e.occurrences :=
  SymbolSet.mem_ofList

/-- Every symbol of the expression is among `allowed`; an empty list allows all. -/
def isOver (e : Expr) (allowed : SymbolSet) : Bool :=
  allowed.isEmpty || e.symbols.subset allowed

end Expr

end TemplateAnalysis
