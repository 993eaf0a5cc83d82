import TemplateAnalysis.Proofs.Expr.Simplified

/-! # Symbols that the constructors keep

The constructors that simplify bring in no symbols, but they may lose some: a product with zero, the
other operands of a conjunction with `false`. Otherwise all symbols of the operands stay.
-/

namespace TemplateAnalysis.Expr

variable {a b e : Expr} {s : Symbol}

@[simp] theorem occurrences_add (a b : Expr) :
    (a.add b).occurrences = a.occurrences ++ b.occurrences := by
  unfold add
  split
  · rfl
  · split
    · next zero =>
      subst zero
      exact (List.append_nil _).symm
    · split
      · next zero =>
        subst zero
        rfl
      · rfl

/-- A product with a constant loses its symbols if the constant is zero. -/
@[simp] theorem occurrences_mul_int (c : Int64) (e : Expr) :
    (Expr.mul (.int c) e).occurrences = if c = 0 then [] else e.occurrences := by
  unfold mul
  split
  · next same =>
    cases same
    simp [occurrences]
  · split
    · next zero =>
      rcases zero with rfl | isZero
      · simp [occurrences]
      · rw [if_pos (Expr.int.inj isZero)]
        rfl
    · next nonzero =>
      rw [if_neg fun zero => nonzero (.inr (congrArg Expr.int zero))]
      split
      · next one =>
        subst one
        rfl
      · split <;> rfl

@[simp] theorem occurrences_equal (a b : Expr) :
    (a.equal b).occurrences = a.occurrences ++ b.occurrences := by
  unfold equal
  split <;> rfl

@[simp] theorem occurrences_gt (a b : Expr) :
    (a.gt b).occurrences = a.occurrences ++ b.occurrences := by
  unfold gt
  split <;> rfl

@[simp] theorem occurrences_ge (a b : Expr) :
    (a.ge b).occurrences = a.occurrences ++ b.occurrences := by
  unfold ge
  split <;> rfl

/-- What has symbols is no constant. -/
theorem ne_bool_of_mem_occurrences (occurs : s ∈ e.occurrences) (t : Bool) : e ≠ .bool t := by
  rintro rfl
  cases occurs

/-- One operand decides the whole. -/
theorem join_eq_of_mem {k : Connective} {es : List Expr} (decides : .bool (!k.neutral) ∈ es) :
    join k es = .bool !k.neutral := by
  have none : operands? k es = none := by
    fun_induction operands? k es with
    | case1 => cases decides
    | case2 es ih => exact ih (by simpa using decides)
    | case3 => rfl
    | case4 inner es ih | case5 d inner es _ ih =>
      rw [ih (by simpa using decides)]
      rfl
    | case6 e es notBool _ ih =>
      rcases List.mem_cons.mp decides with rfl | later
      · exact (notBool _ rfl).elim
      · rw [ih later]
        rfl
  rw [join, none]

/-- What is joined mentions no other symbols. -/
theorem mem_occurrences_join {k : Connective} {es : List Expr}
    (occurs : s ∈ (join k es).occurrences) : ∃ e ∈ es, s ∈ e.occurrences := by
  have plain := (join_refines k es).within occurs
  rwa [occurrences, occurrencesAll_eq_flatMap, List.mem_flatMap] at plain

/-- A list in which no operand decides the whole keeps all symbols when it is joined. -/
theorem mem_occurrences_join_iff {k : Connective} {es : List Expr}
    (undecided : .bool (!k.neutral) ∉ es) :
    s ∈ (join k es).occurrences ↔ ∃ e ∈ es, s ∈ e.occurrences := by
  cases reduced : operands? k es with
  | none => exact absurd (mem_of_operands?_eq_none reduced) undecided
  | some rest =>
    have absent : (∀ e ∈ rest, s ∉ e.occurrences) ↔ ∀ e ∈ es, s ∉ e.occurrences := by
      refine forall_mem_operands? List.not_mem_nil (fun inner => ?_) reduced
      simp [occurrences, occurrencesAll_eq_flatMap]
    have joined : s ∈ (join k es).occurrences ↔ ∃ e ∈ rest, s ∈ e.occurrences := by
      rw [join, reduced]
      rcases rest with - | ⟨e, - | ⟨f, rest⟩⟩
      · simp [occurrences]
      · simp
      · simp [occurrences, occurrencesAll_eq_flatMap]
    rw [joined]
    simpa using not_congr absent

/-- An implication keeps the symbols of what is implied, unless the premise is `false`. -/
theorem mem_occurrences_implies_right (premise : a ≠ .bool false) (occurs : s ∈ b.occurrences) :
    s ∈ (a.implies b).occurrences := by
  unfold implies
  split
  · exact absurd rfl premise
  · cases occurs
  · exact occurs
  · cases occurs
  · exact List.mem_append_right _ occurs

end TemplateAnalysis.Expr
