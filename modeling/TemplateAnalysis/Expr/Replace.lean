import TemplateAnalysis.Expr.Basic

/-! # Replacement inside expressions

Replacement asks a function at every node from the top down, puts its answer in place of the node
and does not look into the answer; everything else is rebuilt as it was, without simplification.
Renaming and substitution are the cases where only symbols are replaced. Filling in the `nondet`
leaves threads a counter from left to right.
-/

namespace TemplateAnalysis.Expr

mutual

/-- The expression with every outermost node that `f` answers for replaced by the answer. -/
def replace (f : Expr → Option Expr) (e : Expr) : Expr :=
  match f e with
  | some answer => answer
  | none =>
    match e with
    | .var s => .var s
    | .bool b => .bool b
    | .int n => .int n
    | .nondet sort => .nondet sort
    | .arith op a b => .arith op (replace f a) (replace f b)
    | .minus a => .minus (replace f a)
    | .equation a b => .equation (replace f a) (replace f b)
    | .cmp op a b => .cmp op (replace f a) (replace f b)
    | .negation a => .negation (replace f a)
    | .junction c es => .junction c (replaceAll f es)
    | .implication a b => .implication (replace f a) (replace f b)
    | .conditional c a b => .conditional (replace f c) (replace f a) (replace f b)

/-- Replacement in each expression of a list. -/
def replaceAll (f : Expr → Option Expr) : List Expr → List Expr
  | [] => []
  | e :: es => replace f e :: replaceAll f es

end

theorem replaceAll_eq_map (f : Expr → Option Expr) (es : List Expr) :
    replaceAll f es = es.map (replace f) := by
  induction es with
  | nil => rfl
  | cons e es ih => simp [replaceAll, ih]

/-- The expression with symbols replaced by expressions; a symbol without an image stays. -/
def substitute (f : Symbol → Option Expr) (e : Expr) : Expr :=
  e.replace fun
    | .var s => f s
    | _ => none

/-- The expression with symbols replaced by symbols; a symbol without an image stays. -/
def rename (f : Symbol → Option Symbol) (e : Expr) : Expr :=
  e.substitute fun s => (f s).map .var

mutual

/-- The expression with the `nondet` leaves replaced by the expressions `fill k sort`, where `k`
counts on from the given number, and the number after the last one used. -/
def fillNondets (fill : Nat → ValueSort → Expr) : Expr → Nat → Expr × Nat
  | .nondet sort, k => (fill k sort, k + 1)
  | .var s, k => (.var s, k)
  | .bool b, k => (.bool b, k)
  | .int n, k => (.int n, k)
  | .arith op a b, k =>
    let (a, k) := fillNondets fill a k
    let (b, k) := fillNondets fill b k
    (.arith op a b, k)
  | .minus a, k =>
    let (a, k) := fillNondets fill a k
    (.minus a, k)
  | .equation a b, k =>
    let (a, k) := fillNondets fill a k
    let (b, k) := fillNondets fill b k
    (.equation a b, k)
  | .cmp op a b, k =>
    let (a, k) := fillNondets fill a k
    let (b, k) := fillNondets fill b k
    (.cmp op a b, k)
  | .negation a, k =>
    let (a, k) := fillNondets fill a k
    (.negation a, k)
  | .junction c es, k =>
    let (es, k) := fillNondetsAll fill es k
    (.junction c es, k)
  | .implication a b, k =>
    let (a, k) := fillNondets fill a k
    let (b, k) := fillNondets fill b k
    (.implication a b, k)
  | .conditional c a b, k =>
    let (c, k) := fillNondets fill c k
    let (a, k) := fillNondets fill a k
    let (b, k) := fillNondets fill b k
    (.conditional c a b, k)

/-- Filling in a list of expressions, one after the other. -/
def fillNondetsAll (fill : Nat → ValueSort → Expr) : List Expr → Nat → List Expr × Nat
  | [], k => ([], k)
  | e :: es, k =>
    let (e, k) := fillNondets fill e k
    let (es, k) := fillNondetsAll fill es k
    (e :: es, k)

end

end TemplateAnalysis.Expr
