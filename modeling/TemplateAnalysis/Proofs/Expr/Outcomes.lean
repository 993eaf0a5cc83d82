import TemplateAnalysis.Proofs.Expr.Sorted

/-! # When an expression has a value

For each operator, one statement says which values of the operands give the whole a value. A
connective may be decided by a single operand, and a choice by two equal branches, so an operand
without a value need not leave the whole without one. Operands come in positively only: whoever
knows more symbols finds the values again that were known before.
-/

namespace TemplateAnalysis

/-- The valuation keeps every value of another one. -/
def Valuation.Extends (w v : Valuation) : Prop := ∀ s x, v s = some x → w s = some x

namespace Expr

variable {v w : Valuation} {a b c : Expr} {x : Value}

attribute [local simp] eval

theorem eval_arith_iff {op : ArithOp} : (arith op a b).eval v = some x ↔
    ∃ m n, a.eval v = some (.int m) ∧ b.eval v = some (.int n) ∧ x = .int (op.apply m n) := by
  rcases evalA : a.eval v with - | (p | m) <;> rcases evalB : b.eval v with - | (q | n) <;>
    simp [evalA, evalB, eq_comm]

theorem eval_minus_iff : (minus a).eval v = some x ↔
    ∃ n, a.eval v = some (.int n) ∧ x = .int (-n) := by
  rcases evalA : a.eval v with - | (p | n) <;> simp [evalA, eq_comm]

theorem eval_equation_iff : (equation a b).eval v = some x ↔
    ∃ y z, a.eval v = some y ∧ b.eval v = some z ∧ x = .bool (decide (y = z)) := by
  rcases evalA : a.eval v with - | y <;> rcases evalB : b.eval v with - | z <;>
    simp [evalA, evalB, eq_comm]

theorem eval_cmp_iff {op : CmpOp} : (cmp op a b).eval v = some x ↔
    ∃ m n, a.eval v = some (.int m) ∧ b.eval v = some (.int n) ∧ x = .bool (op.apply m n) := by
  rcases evalA : a.eval v with - | (p | m) <;> rcases evalB : b.eval v with - | (q | n) <;>
    simp [evalA, evalB, eq_comm]

theorem eval_negation_iff : (negation a).eval v = some x ↔
    ∃ p, a.eval v = some (.bool p) ∧ x = .bool !p := by
  rcases evalA : a.eval v with - | (p | n) <;> simp [evalA, eq_comm]

/-- One operand decides the whole, or all operands are neutral. -/
theorem evalJunction_iff {c : Connective} {es : List Expr} : evalJunction v c es = some x ↔
    (x = .bool !c.neutral ∧ ∃ e ∈ es, e.eval v = some (.bool !c.neutral)) ∨
      (x = .bool c.neutral ∧ ∀ e ∈ es, e.eval v = some (.bool c.neutral)) := by
  induction es generalizing x with
  | nil => simp [evalJunction, eq_comm]
  | cons e es ih =>
    have decided : evalJunction v c es = some (.bool !c.neutral) ↔
        ∃ e ∈ es, e.eval v = some (.bool !c.neutral) := by simp [ih]
    simp only [evalJunction, List.mem_cons, exists_eq_or_imp, forall_eq_or_imp]
    rcases evalE : e.eval v with - | (p | n)
    case some.bool =>
      by_cases same : p = c.neutral
      · simp [same, ih]
      · obtain rfl : p = !c.neutral := Bool.eq_not_of_ne same
        simp [eq_comm]
    -- an operand without a truth value leaves the decision to the others
    all_goals
      rw [← decided]
      rcases evalJunction v c es with - | (q | n) <;> simp
      rcases q with - | - <;> rcases c.neutral with - | - <;> simp [eq_comm]

theorem eval_implication_iff : (implication a b).eval v = some x ↔
    (x = .bool true ∧ (a.eval v = some (.bool false) ∨ b.eval v = some (.bool true))) ∨
      (x = .bool false ∧ a.eval v = some (.bool true) ∧ b.eval v = some (.bool false)) := by
  rcases evalA : a.eval v with - | ((- | -) | m) <;>
    rcases evalB : b.eval v with - | ((- | -) | n) <;> simp [evalA, evalB, eq_comm]

/-- The condition selects a branch, or the branches agree. -/
theorem eval_conditional_iff : (conditional c a b).eval v = some x ↔
    (c.eval v = some (.bool true) ∧ a.eval v = some x) ∨
      (c.eval v = some (.bool false) ∧ b.eval v = some x) ∨
      (a.eval v = some x ∧ b.eval v = some x) := by
  rcases evalC : c.eval v with - | ((- | -) | n)
  case some.bool.true => simpa [evalC] using fun evalA _ => evalA
  case some.bool.false => simp [evalC]
  -- without a truth value of the condition only agreement is left
  all_goals
    rcases evalA : a.eval v with - | y <;> rcases evalB : b.eval v with - | z <;>
      simp [evalA, evalB, evalC]
    constructor <;> (rintro ⟨rfl, rfl⟩; exact ⟨rfl, rfl⟩)

/-- More knowledge keeps every value. -/
theorem eval_mono (more : w.Extends v) {e : Expr} (value : e.eval v = some x) :
    e.eval w = some x := by
  induction e using Expr.induction generalizing x with
  | var s => exact more s x value
  | bool p => exact value
  | int n => exact value
  | nondet sort => exact value
  | arith op a b ha hb =>
    obtain ⟨m, n, evalA, evalB, same⟩ := eval_arith_iff.mp value
    exact eval_arith_iff.mpr ⟨m, n, ha evalA, hb evalB, same⟩
  | minus a ha =>
    obtain ⟨n, evalA, same⟩ := eval_minus_iff.mp value
    exact eval_minus_iff.mpr ⟨n, ha evalA, same⟩
  | equation a b ha hb =>
    obtain ⟨y, z, evalA, evalB, same⟩ := eval_equation_iff.mp value
    exact eval_equation_iff.mpr ⟨y, z, ha evalA, hb evalB, same⟩
  | cmp op a b ha hb =>
    obtain ⟨m, n, evalA, evalB, same⟩ := eval_cmp_iff.mp value
    exact eval_cmp_iff.mpr ⟨m, n, ha evalA, hb evalB, same⟩
  | negation a ha =>
    obtain ⟨p, evalA, same⟩ := eval_negation_iff.mp value
    exact eval_negation_iff.mpr ⟨p, ha evalA, same⟩
  | junction c es ih =>
    refine evalJunction_iff.mpr ((evalJunction_iff.mp value).imp ?_ ?_)
    · rintro ⟨same, e, member, evalE⟩
      exact ⟨same, e, member, ih e member evalE⟩
    · rintro ⟨same, all⟩
      exact ⟨same, fun e member => ih e member (all e member)⟩
  | implication a b ha hb =>
    refine eval_implication_iff.mpr ((eval_implication_iff.mp value).imp ?_ ?_)
    · rintro ⟨same, decided⟩
      exact ⟨same, decided.imp ha hb⟩
    · rintro ⟨same, evalA, evalB⟩
      exact ⟨same, ha evalA, hb evalB⟩
  | conditional c a b hc ha hb =>
    exact eval_conditional_iff.mpr ((eval_conditional_iff.mp value).imp
      (And.imp hc ha) (Or.imp (And.imp hc hb) (And.imp ha hb)))

/-- Evaluation keeps its answers when more symbols get values, for well-sorted and ill-sorted
expressions alike, and a well-sorted expression without open values has an answer of its sort as
soon as its own symbols have values of theirs. -/
theorem eval_monotone_and_total (e : Expr) :
    (∀ v w x, Valuation.Extends w v → e.eval v = some x → e.eval w = some x) ∧
    (e.isWellSorted = true → e.hasNondet = false → ∀ v : Valuation,
      (∀ s ∈ e.symbols, ∃ y, v s = some y ∧ y.sort = s.sort) →
      ∃ x, e.eval v = some x ∧ x.sort = e.sort) := by
  refine ⟨fun v w x more value => eval_mono more value, fun sorted closed v known => ?_⟩
  exact eval_of_isWellSorted sorted closed fun s occurs => known s (mem_symbols.mpr occurs)

/-- Both a decided and an undecided conjunction: `y` does not matter to the first and completes the
second. -/
theorem eval_monotone_and_total_pair :
    let x : Symbol := ⟨"x", .int⟩
    let y : Symbol := ⟨"y", .int⟩
    let less : Valuation := Model.valuation [(x, .int 4)]
    let more : Valuation := Model.valuation [(x, .int 4), (y, .int 7)]
    let decided := junction .and [cmp .gt (var x) (int 10), cmp .ge (var y) (int 0)]
    let undecided := junction .and [cmp .lt (var x) (int 10), cmp .ge (var y) (int 0)]
    Valuation.Extends more less ∧ decided.eval less = some (.bool false) ∧
      decided.eval more = some (.bool false) ∧ undecided.eval less = none ∧
      ∃ z, undecided.eval more = some z ∧ z.sort = .bool := by
  intro x y less more decided undecided
  have extended : Valuation.Extends more less := by
    intro s z value
    simp only [less, more, Model.valuation, List.lookup_cons, List.lookup_nil] at value ⊢
    split at value
    · exact value
    · cases value
  have known : ∀ s ∈ undecided.symbols, ∃ z, more s = some z ∧ z.sort = s.sort := by
    have symbols : undecided.symbols = [x, y] := by decide
    rw [symbols, List.forall_mem_cons, List.forall_mem_singleton]
    exact ⟨⟨_, rfl, rfl⟩, ⟨_, rfl, rfl⟩⟩
  have value : decided.eval less = some (.bool false) := by decide
  exact ⟨extended, value, (eval_monotone_and_total decided).1 less more _ extended value,
    by decide, (eval_monotone_and_total undecided).2 (by decide) (by decide) more known⟩

end Expr

end TemplateAnalysis
