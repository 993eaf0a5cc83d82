import TemplateAnalysis.Proofs.Expr.Refinement

/-! # Values of what the constructors build

Where the values of the operands are known, so is the value of what a constructor makes of them, as
it refines the plain node. In the other direction a value of the whole tells the operands: the
summands of a sum, the parts of a true conjunction, some part of a true disjunction.
-/

namespace TemplateAnalysis.Expr

variable {v : Valuation}

/-- What a sum with an integer value adds up. -/
theorem eval_add_inv {a b : Expr} {n : Int64} (sum : (a.add b).eval v = some (.int n)) :
    ∃ x y, a.eval v = some (.int x) ∧ b.eval v = some (.int y) ∧ n = x + y := by
  unfold add at sum
  split at sum
  · next x y =>
    simp only [eval, Option.some.injEq, Value.int.injEq] at sum
    exact ⟨x, y, rfl, rfl, sum.symm⟩
  · split at sum
    · next zero => exact ⟨n, 0, sum, by rw [zero]; rfl, (Int64.add_zero n).symm⟩
    · split at sum
      · next zero => exact ⟨0, n, by rw [zero]; rfl, sum, (Int64.zero_add n).symm⟩
      · obtain ⟨x, y, evalA, evalB, same⟩ := eval_arith_iff.mp sum
        exact ⟨x, y, evalA, evalB, Value.int.inj same⟩

/-- What a product with a constant multiplies. A factor without a value counts as zero: the product
has a value then only if the constant is zero. -/
theorem eval_mul_int_inv {a : Expr} {k n : Int64}
    (product : (a.mul (.int k)).eval v = some (.int n)) : n = (a.evalInt v).getD 0 * k := by
  unfold mul at product
  split at product
  · next same =>
    cases same
    simpa [eval, evalInt] using product.symm
  · next notBoth =>
    split at product
    · next zero =>
      rcases zero with isZero | isZero
      · cases isZero
        simpa [eval] using product.symm
      · exact (notBoth _ _ isZero rfl).elim
    · split at product
      · next one =>
        cases one
        simp [evalInt, product]
      · split at product
        · next isOne => exact (notBoth _ _ isOne rfl).elim
        · obtain ⟨x, y, evalA, evalB, same⟩ := eval_arith_iff.mp product
          cases evalB
          cases same
          simp [evalInt, evalA, ArithOp.apply]

/-- An expression equals a constant where it has that value. -/
theorem eval_equal_int_iff {a : Expr} {k : Int64} :
    (a.equal (.int k)).eval v = some (.bool true) ↔ a.eval v = some (.int k) := by
  have plain : (equation a (.int k)).eval v = some (.bool true) ↔ a.eval v = some (.int k) := by
    cases known : a.eval v <;> simp [eval, known]
  unfold equal
  split
  · next same =>
    cases same
    simp [eval]
  · next same => cases same
  · exact plain

private theorem eval_cmp_int_iff {op : CmpOp} {a : Expr} {k : Int64} :
    (cmp op a (.int k)).eval v = some (.bool true) ↔
      ∃ n, a.eval v = some (.int n) ∧ op.apply n k = true := by
  rcases known : a.eval v with - | (b | n) <;> simp [eval, known]

/-- An expression is above a constant where it has a larger value. -/
theorem eval_gt_int_iff {a : Expr} {k : Int64} :
    (a.gt (.int k)).eval v = some (.bool true) ↔ ∃ n, a.eval v = some (.int n) ∧ k < n := by
  unfold gt
  split
  · next same =>
    cases same
    simp [eval]
  · exact eval_cmp_int_iff.trans (by simp only [CmpOp.apply, decide_eq_true_eq])

/-- An expression is not below a constant where its value is not. -/
theorem eval_ge_int_iff {a : Expr} {k : Int64} :
    (a.ge (.int k)).eval v = some (.bool true) ↔ ∃ n, a.eval v = some (.int n) ∧ k ≤ n := by
  unfold ge
  split
  · next same =>
    cases same
    simp [eval]
  · exact eval_cmp_int_iff.trans (by simp only [CmpOp.apply, decide_eq_true_eq])

/-- The negation of a truth value. -/
theorem eval_not_of_bool {a : Expr} {b : Bool} (known : a.eval v = some (.bool b)) :
    a.not.eval v = some (.bool !b) :=
  (not_refines a).value (by simp [eval, known])

/-- An implication between truth values. -/
theorem eval_implies_of_bools {a b : Expr} {p q : Bool} (evalA : a.eval v = some (.bool p))
    (evalB : b.eval v = some (.bool q)) : (a.implies b).eval v = some (.bool (!p || q)) :=
  (implies_refines a b).value (by cases p <;> cases q <;> simp [eval, evalA, evalB])

/-- What a true premise implies is true. -/
theorem eval_of_implies {a b : Expr} (known : a.eval v = some (.bool true))
    (whole : (a.implies b).eval v = some (.bool true)) : b.eval v = some (.bool true) := by
  unfold implies at whole
  split at whole
  · cases known
  · rfl
  · exact whole
  · rw [eval_not_of_bool known] at whole
    cases whole
  · rcases eval_implication_iff.mp whole with ⟨-, evalA | evalB⟩ | ⟨isTrue, -⟩
    · rw [known] at evalA
      cases evalA
    · exact evalB
    · cases isTrue

/-- A choice by a condition with a truth value. -/
theorem eval_ite_of_bool {c a b : Expr} {t : Bool} (known : c.eval v = some (.bool t)) :
    (ite c a b).eval v = if t then a.eval v else b.eval v := by
  unfold ite
  split
  · simp only [eval, Option.some.injEq, Value.bool.injEq] at known
    simp [← known]
  · simp only [eval, Option.some.injEq, Value.bool.injEq] at known
    simp [← known]
  · split
    · next same => simp [same]
    · exact eval_conditional_of_bool known

/-- The disjunction of truth values. -/
theorem eval_disj_of_bools {es : List Expr} (truth : Expr → Bool)
    (known : ∀ e ∈ es, e.eval v = some (.bool (truth e))) :
    (disj es).eval v = some (.bool (es.any truth)) :=
  (join_refines _ es).value (evalJunction_of_bools truth known)

/-- The conjunction of truth values. -/
theorem eval_conj_of_bools {es : List Expr} (truth : Expr → Bool)
    (known : ∀ e ∈ es, e.eval v = some (.bool (truth e))) :
    (conj es).eval v = some (.bool (es.all truth)) :=
  (join_refines _ es).value (evalJunction_of_bools truth known)

/-- The conjunction of two truth values. -/
theorem eval_and_of_bools {a b : Expr} {p q : Bool} (evalA : a.eval v = some (.bool p))
    (evalB : b.eval v = some (.bool q)) : (a.and b).eval v = some (.bool (p && q)) :=
  (join_refines .and [a, b]).value (by
    cases p <;> cases q <;> simp [eval, evalJunction, evalA, evalB, Connective.neutral])

section Families

variable {α : Type} {xs : List α} {f : α → Expr} {g : α → Bool}
  (known : ∀ x ∈ xs, (f x).eval v = some (.bool (g x)))
include known

private theorem truth_map : (xs.map f).map (fun e => e.eval v == some (.bool true)) = xs.map g := by
  rw [List.map_map]
  refine List.map_congr_left fun x isMember => ?_
  rw [Function.comp_apply, known x isMember]
  cases g x <;> rfl

private theorem eval_map :
    ∀ e ∈ xs.map f, e.eval v = some (.bool (e.eval v == some (.bool true))) := by
  rw [List.forall_mem_map]
  intro x isMember
  rw [known x isMember]
  cases g x <;> rfl

/-- The disjunction of a family of truth values. -/
theorem eval_disj_map : (disj (xs.map f)).eval v = some (.bool (xs.any g)) := by
  have values := congrArg (List.any · id) (truth_map known)
  simp only [List.any_map, Function.id_comp] at values
  rw [eval_disj_of_bools _ (eval_map known), List.any_map, ← values]

end Families

/-- A disjunction is true where one of its parts is. -/
theorem eval_disj_iff {es : List Expr} :
    (disj es).eval v = some (.bool true) ↔ ∃ e ∈ es, e.eval v = some (.bool true) := by
  simp [disj, eval_join_iff, evalJunction_iff, Connective.neutral]

/-- A disjunction of literals is true only if one of them is. -/
theorem exists_of_eval_disj {symbols : List Symbol}
    (isTrue : (disj (symbols.map .var)).eval v = some (.bool true)) :
    ∃ s ∈ symbols, v.bool? s = some true := by
  obtain ⟨e, isMember, value⟩ := eval_disj_iff.mp isTrue
  obtain ⟨s, isSymbol, rfl⟩ := List.mem_map.mp isMember
  exact ⟨s, isSymbol, congrArg (Option.bind · Value.toBool?) value⟩

/-- A conjunction is true where all its parts are. -/
theorem eval_conj_iff {es : List Expr} :
    (conj es).eval v = some (.bool true) ↔ ∀ e ∈ es, e.eval v = some (.bool true) := by
  simp [conj, eval_join_iff, evalJunction_iff, Connective.neutral]

section Symbols

variable {s : Symbol} {a b : Expr}

theorem mem_occurrences_not (occurs : s ∈ a.not.occurrences) : s ∈ a.occurrences :=
  (not_refines a).within occurs

theorem mem_occurrences_implies (occurs : s ∈ (a.implies b).occurrences) :
    s ∈ a.occurrences ∨ s ∈ b.occurrences :=
  List.mem_append.mp ((implies_refines a b).within occurs)

theorem mem_occurrences_and (occurs : s ∈ (a.and b).occurrences) :
    s ∈ a.occurrences ∨ s ∈ b.occurrences := by
  have joined := (join_refines .and [a, b]).within occurs
  simpa [occurrences, occurrencesAll] using joined

end Symbols

end TemplateAnalysis.Expr
