import TemplateAnalysis.Expr.Eval

/-! # Total assignments and well-sorted expressions

A total assignment gives every symbol a value of its sort; stores of a program and models of
formulas are both of this kind. Evaluation depends on nothing but the symbols that occur, and a
well-sorted expression without open values always has a value, of its own sort.
-/

namespace TemplateAnalysis

/-- A value of its sort for every symbol. -/
structure Assignment where
  value : Symbol → Value
  sorted : ∀ s, (value s).sort = s.sort

/-- Some value of a sort. -/
def ValueSort.default : ValueSort → Value
  | .bool => .bool false
  | .int => .int 0

@[simp] theorem ValueSort.sort_default (sort : ValueSort) : sort.default.sort = sort := by
  cases sort <;> rfl

namespace Value

theorem bool_of_sort {x : Value} (sort : x.sort = .bool) : ∃ b, x = .bool b := by
  cases x with
  | bool b => exact ⟨b, rfl⟩
  | int n => cases sort

theorem int_of_sort {x : Value} (sort : x.sort = .int) : ∃ n, x = .int n := by
  cases x with
  | bool b => cases sort
  | int n => exact ⟨n, rfl⟩

end Value

namespace Assignment

instance : CoeFun Assignment fun _ => Symbol → Value := ⟨value⟩

instance : Inhabited Assignment := ⟨⟨fun s => s.sort.default, fun s => s.sort.sort_default⟩⟩

@[ext] theorem ext {a b : Assignment} (same : ∀ s, a s = b s) : a = b := by
  obtain ⟨value, sorted⟩ := a
  obtain ⟨other, _⟩ := b
  obtain rfl : value = other := funext same
  rfl

/-- The assignment as a valuation without gaps. -/
def valuation (a : Assignment) : Valuation := fun s => some (a s)

@[simp] theorem valuation_apply (a : Assignment) (s : Symbol) : a.valuation s = some (a s) := rfl

/-- The assignment with the value of one symbol set; a value of another sort changes nothing. -/
def set (a : Assignment) (s : Symbol) (x : Value) : Assignment where
  value t := if t = s ∧ x.sort = s.sort then x else a t
  sorted t := by
    split
    · next here => rw [here.1, here.2]
    · exact a.sorted t

theorem set_self {a : Assignment} {s : Symbol} {x : Value} (sort : x.sort = s.sort) :
    a.set s x s = x := by
  simp [set, sort]

theorem set_other {a : Assignment} {s t : Symbol} {x : Value} (other : t ≠ s) :
    a.set s x t = a t := by
  simp [set, other]

/-- The assignment that takes the values of some symbols from another one. -/
def override (a : Assignment) (chosen : Symbol → Bool) (b : Assignment) : Assignment where
  value s := if chosen s then b s else a s
  sorted s := by
    split
    · exact b.sorted s
    · exact a.sorted s

theorem override_chosen {a b : Assignment} {chosen : Symbol → Bool} {s : Symbol}
    (isChosen : chosen s = true) : a.override chosen b s = b s := if_pos isChosen

theorem override_other {a b : Assignment} {chosen : Symbol → Bool} {s : Symbol}
    (other : chosen s = false) : a.override chosen b s = a s := by
  simp [override, other]

theorem bool_of_sort {a : Assignment} {s : Symbol} (sort : s.sort = .bool) :
    ∃ b, a s = .bool b :=
  Value.bool_of_sort ((a.sorted s).trans sort)

theorem int_of_sort {a : Assignment} {s : Symbol} (sort : s.sort = .int) : ∃ n, a s = .int n :=
  Value.int_of_sort ((a.sorted s).trans sort)

/-- Every formula of a list is true. -/
def Satisfies (a : Assignment) (formulas : List Expr) : Prop :=
  ∀ formula ∈ formulas, formula.eval a.valuation = some (.bool true)

end Assignment

namespace Expr

mutual

/-- Operands have the sorts that operators ask for. -/
def isWellSorted : Expr → Bool
  | .var _ => true
  | .bool _ => true
  | .int _ => true
  | .nondet _ => true
  | .arith _ a b => isWellSorted a && isWellSorted b && a.sort == .int && b.sort == .int
  | .minus a => isWellSorted a && a.sort == .int
  | .equation a b => isWellSorted a && isWellSorted b && a.sort == b.sort
  | .cmp _ a b => isWellSorted a && isWellSorted b && a.sort == .int && b.sort == .int
  | .negation a => isWellSorted a && a.sort == .bool
  | .junction _ es => areConditions es
  | .implication a b => isWellSorted a && isWellSorted b && a.sort == .bool && b.sort == .bool
  | .conditional c a b =>
    isWellSorted c && isWellSorted a && isWellSorted b && c.sort == .bool && a.sort == b.sort

/-- Every expression of a list is well sorted and has a truth value. -/
def areConditions : List Expr → Bool
  | [] => true
  | e :: es => isWellSorted e && e.sort == .bool && areConditions es

end

/-- A well-sorted expression with a truth value. -/
def isCondition (e : Expr) : Bool := e.isWellSorted && e.sort == .bool

theorem isCondition_iff {e : Expr} :
    e.isCondition = true ↔ e.isWellSorted = true ∧ e.sort = .bool := by
  simp [isCondition]

theorem areConditions_iff {es : List Expr} :
    areConditions es = true ↔ ∀ e ∈ es, e.isCondition = true := by
  induction es with
  | nil => simp [areConditions]
  | cons e es ih => simp [areConditions, ih, isCondition]

theorem evalJunction_congr {v w : Valuation} {c : Connective} {es : List Expr}
    (same : ∀ e ∈ es, e.eval v = e.eval w) : evalJunction v c es = evalJunction w c es := by
  induction es with
  | nil => rfl
  | cons e es ih =>
    have head := same e List.mem_cons_self
    have tail := ih fun f member => same f (List.mem_cons_of_mem e member)
    simp only [evalJunction, head, tail]

/-- The value of an expression depends on the symbols that occur in it only. -/
theorem eval_congr {v w : Valuation} {e : Expr} (agree : ∀ s ∈ e.occurrences, v s = w s) :
    e.eval v = e.eval w := by
  induction e using Expr.induction with
  | var s => exact agree s (by simp [occurrences])
  | bool b => rfl
  | int n => rfl
  | nondet sort => rfl
  | arith op a b ha hb =>
    simp only [occurrences, List.mem_append] at agree
    simp only [eval, ha fun s h => agree s (.inl h), hb fun s h => agree s (.inr h)]
  | minus a ha => simp only [eval, ha agree]
  | equation a b ha hb =>
    simp only [occurrences, List.mem_append] at agree
    simp only [eval, ha fun s h => agree s (.inl h), hb fun s h => agree s (.inr h)]
  | cmp op a b ha hb =>
    simp only [occurrences, List.mem_append] at agree
    simp only [eval, ha fun s h => agree s (.inl h), hb fun s h => agree s (.inr h)]
  | negation a ha => simp only [eval, ha agree]
  | junction c es ih =>
    simp only [occurrences, occurrencesAll_eq_flatMap, List.mem_flatMap] at agree
    simp only [eval]
    exact evalJunction_congr fun e member => ih e member fun s h => agree s ⟨e, member, h⟩
  | implication a b ha hb =>
    simp only [occurrences, List.mem_append] at agree
    simp only [eval, ha fun s h => agree s (.inl h), hb fun s h => agree s (.inr h)]
  | conditional c a b hc ha hb =>
    simp only [occurrences, List.mem_append] at agree
    simp only [eval, hc fun s h => agree s (.inl (.inl h)), ha fun s h => agree s (.inl (.inr h)),
      hb fun s h => agree s (.inr h)]

/-- Operands with truth values give a conjunction or disjunction its truth value. -/
theorem evalJunction_of_bools {v : Valuation} {c : Connective} {es : List Expr}
    (truth : Expr → Bool) (known : ∀ e ∈ es, e.eval v = some (.bool (truth e))) :
    evalJunction v c es = some (.bool (match c with
      | .and => es.all truth
      | .or => es.any truth)) := by
  induction es with
  | nil => cases c <;> rfl
  | cons e es ih =>
    have head := known e List.mem_cons_self
    have tail := ih fun f member => known f (List.mem_cons_of_mem e member)
    simp only [evalJunction, head, Option.bind_some, Value.toBool?_bool, tail]
    cases c <;> cases decided : truth e <;> simp [Connective.neutral, decided]

theorem eval_conditional_of_bool {v : Valuation} {c a b : Expr} {t : Bool}
    (known : c.eval v = some (.bool t)) :
    (conditional c a b).eval v = if t then a.eval v else b.eval v := by
  cases t <;> simp [eval, known]

/-- A well-sorted expression without open values has a value of its sort wherever its symbols
have values of theirs. -/
theorem eval_of_isWellSorted {v : Valuation} {e : Expr} (sorted : e.isWellSorted = true)
    (closed : e.hasNondet = false)
    (known : ∀ s ∈ e.occurrences, ∃ x, v s = some x ∧ x.sort = s.sort) :
    ∃ x, e.eval v = some x ∧ x.sort = e.sort := by
  induction e using Expr.induction with
  | var s => exact known s (by simp [occurrences])
  | bool b => exact ⟨.bool b, rfl, rfl⟩
  | int n => exact ⟨.int n, rfl, rfl⟩
  | nondet sort => simp [hasNondet] at closed
  | arith op a b ha hb =>
    simp only [isWellSorted, Bool.and_eq_true, beq_iff_eq] at sorted
    simp only [hasNondet, Bool.or_eq_false_iff] at closed
    simp only [occurrences, List.mem_append] at known
    obtain ⟨x, evalA, sortA⟩ := ha sorted.1.1.1 closed.1 fun s h => known s (.inl h)
    obtain ⟨y, evalB, sortB⟩ := hb sorted.1.1.2 closed.2 fun s h => known s (.inr h)
    obtain ⟨m, rfl⟩ := Value.int_of_sort (sortA.trans sorted.1.2)
    obtain ⟨n, rfl⟩ := Value.int_of_sort (sortB.trans sorted.2)
    exact ⟨.int (op.apply m n), by simp [eval, evalA, evalB], rfl⟩
  | minus a ha =>
    simp only [isWellSorted, Bool.and_eq_true, beq_iff_eq] at sorted
    obtain ⟨x, evalA, sortA⟩ := ha sorted.1 closed known
    obtain ⟨n, rfl⟩ := Value.int_of_sort (sortA.trans sorted.2)
    exact ⟨.int (-n), by simp [eval, evalA], rfl⟩
  | equation a b ha hb =>
    simp only [isWellSorted, Bool.and_eq_true, beq_iff_eq] at sorted
    simp only [hasNondet, Bool.or_eq_false_iff] at closed
    simp only [occurrences, List.mem_append] at known
    obtain ⟨x, evalA, -⟩ := ha sorted.1.1 closed.1 fun s h => known s (.inl h)
    obtain ⟨y, evalB, -⟩ := hb sorted.1.2 closed.2 fun s h => known s (.inr h)
    exact ⟨.bool (decide (x = y)), by simp [eval, evalA, evalB], rfl⟩
  | cmp op a b ha hb =>
    simp only [isWellSorted, Bool.and_eq_true, beq_iff_eq] at sorted
    simp only [hasNondet, Bool.or_eq_false_iff] at closed
    simp only [occurrences, List.mem_append] at known
    obtain ⟨x, evalA, sortA⟩ := ha sorted.1.1.1 closed.1 fun s h => known s (.inl h)
    obtain ⟨y, evalB, sortB⟩ := hb sorted.1.1.2 closed.2 fun s h => known s (.inr h)
    obtain ⟨m, rfl⟩ := Value.int_of_sort (sortA.trans sorted.1.2)
    obtain ⟨n, rfl⟩ := Value.int_of_sort (sortB.trans sorted.2)
    exact ⟨.bool (op.apply m n), by simp [eval, evalA, evalB], rfl⟩
  | negation a ha =>
    simp only [isWellSorted, Bool.and_eq_true, beq_iff_eq] at sorted
    obtain ⟨x, evalA, sortA⟩ := ha sorted.1 closed known
    obtain ⟨b, rfl⟩ := Value.bool_of_sort (sortA.trans sorted.2)
    exact ⟨.bool (!b), by simp [eval, evalA], rfl⟩
  | junction c es ih =>
    simp only [isWellSorted, areConditions_iff, isCondition_iff] at sorted
    simp only [hasNondet, anyNondet_eq_any, List.any_eq_false, Bool.not_eq_true] at closed
    simp only [occurrences, occurrencesAll_eq_flatMap, List.mem_flatMap] at known
    have bools : ∀ e ∈ es, ∃ b, e.eval v = some (.bool b) := by
      intro e member
      obtain ⟨x, evalE, sortE⟩ := ih e member (sorted e member).1 (closed e member)
        fun s h => known s ⟨e, member, h⟩
      obtain ⟨b, rfl⟩ := Value.bool_of_sort (sortE.trans (sorted e member).2)
      exact ⟨b, evalE⟩
    have truths : ∀ e ∈ es, e.eval v = some (.bool (e.evalBool v == some true)) := by
      intro e member
      obtain ⟨b, evalE⟩ := bools e member
      cases b <;> simp [evalBool, evalE]
    exact ⟨_, evalJunction_of_bools _ truths, rfl⟩
  | implication a b ha hb =>
    simp only [isWellSorted, Bool.and_eq_true, beq_iff_eq] at sorted
    simp only [hasNondet, Bool.or_eq_false_iff] at closed
    simp only [occurrences, List.mem_append] at known
    obtain ⟨x, evalA, sortA⟩ := ha sorted.1.1.1 closed.1 fun s h => known s (.inl h)
    obtain ⟨y, evalB, sortB⟩ := hb sorted.1.1.2 closed.2 fun s h => known s (.inr h)
    obtain ⟨p, rfl⟩ := Value.bool_of_sort (sortA.trans sorted.1.2)
    obtain ⟨q, rfl⟩ := Value.bool_of_sort (sortB.trans sorted.2)
    exact ⟨.bool (!p || q), by cases p <;> cases q <;> simp [eval, evalA, evalB], rfl⟩
  | conditional c a b hc ha hb =>
    simp only [isWellSorted, Bool.and_eq_true, beq_iff_eq] at sorted
    simp only [hasNondet, Bool.or_eq_false_iff] at closed
    simp only [occurrences, List.mem_append] at known
    obtain ⟨x, evalC, sortC⟩ := hc sorted.1.1.1.1 closed.1.1 fun s h => known s (.inl (.inl h))
    obtain ⟨y, evalA, sortA⟩ := ha sorted.1.1.1.2 closed.1.2 fun s h => known s (.inl (.inr h))
    obtain ⟨z, evalB, sortB⟩ := hb sorted.1.1.2 closed.2 fun s h => known s (.inr h)
    obtain ⟨t, rfl⟩ := Value.bool_of_sort (sortC.trans sorted.1.2)
    rw [eval_conditional_of_bool evalC]
    cases t with
    | true => exact ⟨y, evalA, sortA⟩
    | false => exact ⟨z, evalB, sortB.trans sorted.2.symm⟩

/-- Under a total assignment, a well-sorted expression without open values has a value. -/
theorem eval_assignment (a : Assignment) {e : Expr} (sorted : e.isWellSorted = true)
    (closed : e.hasNondet = false) : ∃ x, e.eval a.valuation = some x ∧ x.sort = e.sort :=
  eval_of_isWellSorted sorted closed fun s _ => ⟨a s, rfl, a.sorted s⟩

end Expr

end TemplateAnalysis
