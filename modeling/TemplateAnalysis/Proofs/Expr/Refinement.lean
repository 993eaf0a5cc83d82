import TemplateAnalysis.Expr.Simplify
import TemplateAnalysis.Proofs.Expr.Outcomes

/-! # What the constructors that simplify build

An expression refines another one if it can stand in its place: it has every value of the other,
keeps it well sorted and of its sort, and brings in neither symbols nor open values. Each rule by
which the constructors simplify is a refinement, so whatever they build refines the plain node of
their operands. The converse fails: `0 * x` is zero even if `x` is unknown.
-/

namespace TemplateAnalysis.Expr

variable {v : Valuation} {plain built a b c e : Expr}

/-- The expression can stand in the place of a plain one. -/
structure Refines (built plain : Expr) : Prop where
  value {v : Valuation} {x : Value} : plain.eval v = some x → built.eval v = some x
  sorted : plain.isWellSorted = true → built.isWellSorted = true ∧ built.sort = plain.sort
  within : built.occurrences ⊆ plain.occurrences
  closed : plain.hasNondet = false → built.hasNondet = false

namespace Refines

@[refl] theorem refl (e : Expr) : e.Refines e where
  value := id
  sorted known := ⟨known, rfl⟩
  within := List.Subset.refl _
  closed := id

theorem trans (first : a.Refines b) (second : b.Refines c) : a.Refines c where
  value known := first.value (second.value known)
  sorted known := by
    obtain ⟨sortedB, sortB⟩ := second.sorted known
    obtain ⟨sortedA, sortA⟩ := first.sorted sortedB
    exact ⟨sortedA, sortA.trans sortB⟩
  within := List.Subset.trans first.within second.within
  closed known := first.closed (second.closed known)

/-- A truth constant can stand for what has no other value. -/
theorem bool {t : Bool} (only : ∀ {v x}, plain.eval v = some x → x = .bool t)
    (sort : plain.sort = .bool) : (bool t).Refines plain where
  value known := congrArg some (only known).symm
  sorted _ := ⟨rfl, sort.symm⟩
  within := List.nil_subset _
  closed _ := rfl

/-- An integer constant can stand for what has no other value. -/
theorem int {n : Int64} (only : ∀ {v x}, plain.eval v = some x → x = .int n)
    (sort : plain.sort = .int) : (int n).Refines plain where
  value known := congrArg some (only known).symm
  sorted _ := ⟨rfl, sort.symm⟩
  within := List.nil_subset _
  closed _ := rfl

/-- Where the plain node has a value for sure, both have the same one. -/
theorem eval_eq (refines : built.Refines plain) (sorted : plain.isWellSorted = true)
    (closed : plain.hasNondet = false)
    (known : ∀ s ∈ plain.occurrences, ∃ x, v s = some x ∧ x.sort = s.sort) :
    ∃ x, plain.eval v = some x ∧ built.eval v = some x := by
  obtain ⟨x, value, -⟩ := eval_of_isWellSorted sorted closed known
  exact ⟨x, value, refines.value value⟩

end Refines

section Arithmetic

/-- Two constants are computed at once. -/
theorem refines_arith_ints (op : ArithOp) (m n : Int64) :
    (int (op.apply m n)).Refines (.arith op (.int m) (.int n)) :=
  .int (fun known => by simpa [eval, eq_comm] using known) rfl

/-- A constant on the right that changes nothing is dropped. -/
theorem refines_arith_left {op : ArithOp} {k : Int64} (unit : ∀ n, op.apply n k = n) :
    a.Refines (.arith op a (.int k)) where
  value known := by
    obtain ⟨m, n, evalA, evalB, rfl⟩ := eval_arith_iff.mp known
    cases evalB
    rw [unit, evalA]
  sorted known := by
    simp only [isWellSorted, Bool.and_eq_true, beq_iff_eq] at known
    exact ⟨known.1.1.1, known.1.2⟩
  within := List.subset_append_left _ _
  closed known := (Bool.or_eq_false_iff.mp known).1

/-- A constant on the left that changes nothing is dropped. -/
theorem refines_arith_right {op : ArithOp} {k : Int64} (unit : ∀ n, op.apply k n = n) :
    b.Refines (.arith op (.int k) b) where
  value known := by
    obtain ⟨m, n, evalA, evalB, rfl⟩ := eval_arith_iff.mp known
    cases evalA
    rw [unit, evalB]
  sorted known := by
    simp only [isWellSorted, Bool.and_eq_true, beq_iff_eq] at known
    exact ⟨known.1.1.2, known.2⟩
  within := List.subset_append_right _ _
  closed known := (Bool.or_eq_false_iff.mp known).2

theorem add_refines (a b : Expr) : (a.add b).Refines (.arith .add a b) := by
  unfold add
  split
  · exact refines_arith_ints .add _ _
  · split
    · next zero =>
      subst zero
      exact refines_arith_left Int64.add_zero
    · split
      · next zero =>
        subst zero
        exact refines_arith_right Int64.zero_add
      · exact .refl _

theorem sub_refines (a b : Expr) : (a.sub b).Refines (.arith .sub a b) := by
  unfold sub
  split
  · exact refines_arith_ints .sub _ _
  · split
    · next zero =>
      subst zero
      exact refines_arith_left Int64.sub_zero
    · exact .refl _

theorem mul_refines (a b : Expr) : (a.mul b).Refines (.arith .mul a b) := by
  unfold mul
  split
  · exact refines_arith_ints .mul _ _
  · split
    · next zero =>
      refine .int (fun known => ?_) rfl
      obtain ⟨m, n, evalA, evalB, rfl⟩ := eval_arith_iff.mp known
      rcases zero with rfl | rfl
      · cases evalB
        exact congrArg Value.int Int64.mul_zero
      · cases evalA
        exact congrArg Value.int Int64.zero_mul
    · split
      · next one =>
        subst one
        exact refines_arith_left Int64.mul_one
      · split
        · next one =>
          subst one
          exact refines_arith_right Int64.one_mul
        · exact .refl _

/-- Two inversions cancel, also at the smallest integer. -/
theorem refines_minus_minus : a.Refines (.minus (.minus a)) where
  value known := by
    obtain ⟨n, evalMinus, rfl⟩ := eval_minus_iff.mp known
    obtain ⟨m, evalA, same⟩ := eval_minus_iff.mp evalMinus
    cases same
    rw [evalA, Int64.neg_neg]
  sorted known := by
    simp only [isWellSorted, Bool.and_eq_true, beq_iff_eq] at known
    exact ⟨known.1.1, known.1.2⟩
  within := List.Subset.refl _
  closed := id

theorem neg_refines (a : Expr) : a.neg.Refines (.minus a) := by
  unfold neg
  split
  · exact .int (fun known => by simpa [eval, eq_comm] using known) rfl
  · exact refines_minus_minus
  · exact .refl _

end Arithmetic

section Comparisons

theorem equal_refines (a b : Expr) : (a.equal b).Refines (.equation a b) := by
  unfold equal
  split
  · exact .bool (fun known => by simpa [eval, eq_comm] using known) rfl
  · exact .bool (fun known => by simpa [eval, eq_comm] using known) rfl
  · exact .refl _

/-- Two constants are compared at once. -/
theorem refines_cmp_ints (op : CmpOp) (m n : Int64) :
    (bool (op.apply m n)).Refines (.cmp op (.int m) (.int n)) :=
  .bool (fun known => by simpa [eval, eq_comm] using known) rfl

theorem lt_refines (a b : Expr) : (a.lt b).Refines (.cmp .lt a b) := by
  unfold lt
  split
  · exact refines_cmp_ints .lt _ _
  · exact .refl _

theorem le_refines (a b : Expr) : (a.le b).Refines (.cmp .le a b) := by
  unfold le
  split
  · exact refines_cmp_ints .le _ _
  · exact .refl _

theorem gt_refines (a b : Expr) : (a.gt b).Refines (.cmp .gt a b) := by
  unfold gt
  split
  · exact refines_cmp_ints .gt _ _
  · exact .refl _

theorem ge_refines (a b : Expr) : (a.ge b).Refines (.cmp .ge a b) := by
  unfold ge
  split
  · exact refines_cmp_ints .ge _ _
  · exact .refl _

end Comparisons

section Connectives

theorem refines_negation_negation : a.Refines (.negation (.negation a)) where
  value known := by
    obtain ⟨p, evalNot, rfl⟩ := eval_negation_iff.mp known
    obtain ⟨q, evalA, same⟩ := eval_negation_iff.mp evalNot
    cases same
    rw [evalA, Bool.not_not]
  sorted known := by
    simp only [isWellSorted, Bool.and_eq_true, beq_iff_eq] at known
    exact ⟨known.1.1, known.1.2⟩
  within := List.Subset.refl _
  closed := id

theorem not_refines (a : Expr) : a.not.Refines (.negation a) := by
  unfold not
  split
  · exact .bool (fun known => by simpa [eval, eq_comm] using known) rfl
  · exact refines_negation_negation
  · exact .refl _

theorem refines_true_implication : b.Refines (.implication (.bool true) b) where
  value known := by
    rcases eval_implication_iff.mp known with ⟨rfl, evalFalse | evalB⟩ | ⟨rfl, -, evalB⟩
    · cases evalFalse
    · exact evalB
    · exact evalB
  sorted known := by
    simp only [isWellSorted, Bool.and_eq_true, beq_iff_eq] at known
    exact ⟨known.1.1.2, known.2⟩
  within := List.subset_append_right _ _
  closed known := (Bool.or_eq_false_iff.mp known).2

theorem refines_implication_false : (negation a).Refines (.implication a (.bool false)) where
  value known := by
    rw [eval_negation_iff]
    rcases eval_implication_iff.mp known with ⟨rfl, evalA | evalTrue⟩ | ⟨rfl, evalA, -⟩
    · exact ⟨false, evalA, rfl⟩
    · cases evalTrue
    · exact ⟨true, evalA, rfl⟩
  sorted known := by
    simp only [isWellSorted, Bool.and_eq_true, beq_iff_eq] at known ⊢
    exact ⟨⟨known.1.1.1, known.1.2⟩, rfl⟩
  within := List.subset_append_left _ _
  closed known := (Bool.or_eq_false_iff.mp known).1

theorem implies_refines (a b : Expr) : (a.implies b).Refines (.implication a b) := by
  unfold implies
  split
  · refine .bool (fun known => ?_) rfl
    rcases eval_implication_iff.mp known with ⟨same, -⟩ | ⟨-, evalTrue, -⟩
    · exact same
    · cases evalTrue
  · refine .bool (fun known => ?_) rfl
    rcases eval_implication_iff.mp known with ⟨same, -⟩ | ⟨-, -, evalFalse⟩
    · exact same
    · cases evalFalse
  · exact refines_true_implication
  · exact (not_refines _).trans refines_implication_false
  · exact .refl _

/-- The first branch can stand for a choice that has no other value. -/
theorem refines_conditional_first
    (value : ∀ {v x}, (conditional c a b).eval v = some x → a.eval v = some x) :
    a.Refines (.conditional c a b) where
  value
  sorted known := by
    simp only [isWellSorted, Bool.and_eq_true, beq_iff_eq] at known
    exact ⟨known.1.1.1.2, rfl⟩
  within _ occurs := List.mem_append_left _ (List.mem_append_right _ occurs)
  closed known := by
    simp only [hasNondet, Bool.or_eq_false_iff] at known
    exact known.1.2

/-- The second branch can stand for a choice that has no other value. -/
theorem refines_conditional_second
    (value : ∀ {v x}, (conditional c a b).eval v = some x → b.eval v = some x) :
    b.Refines (.conditional c a b) where
  value
  sorted known := by
    simp only [isWellSorted, Bool.and_eq_true, beq_iff_eq] at known
    exact ⟨known.1.1.2, known.2.symm⟩
  within := List.subset_append_right _ _
  closed known := (Bool.or_eq_false_iff.mp known).2

theorem ite_refines (c a b : Expr) : (ite c a b).Refines (.conditional c a b) := by
  unfold ite
  split
  · exact refines_conditional_first fun known => known
  · exact refines_conditional_second fun known => known
  · split
    · next same =>
      subst same
      refine refines_conditional_first fun known => ?_
      rcases eval_conditional_iff.mp known with ⟨-, evalA⟩ | ⟨-, evalA⟩ | ⟨evalA, -⟩
      all_goals exact evalA
    · exact .refl _

end Connectives

section Lists

variable {k : Connective} {es rest : List Expr}

/-- What an operand list is reduced to has a property throughout exactly if the list has, provided
that a nested operand has the property with its own operands. -/
theorem forall_mem_operands? {Q : Expr → Prop} (neutral : Q (.bool k.neutral))
    (nested : ∀ inner, Q (.junction k inner) ↔ ∀ e ∈ inner, Q e)
    (kept : operands? k es = some rest) : (∀ e ∈ rest, Q e) ↔ ∀ e ∈ es, Q e := by
  fun_induction operands? k es generalizing rest with
  | case1 =>
    cases kept
    rfl
  | case2 es ih => rw [List.forall_mem_cons, ih kept, and_iff_right neutral]
  | case3 => cases kept
  | case4 inner es ih =>
    obtain ⟨later, found, rfl⟩ := Option.map_eq_some_iff.mp kept
    rw [List.forall_mem_append, List.forall_mem_cons, nested, ih found]
  | case5 d inner es _ ih =>
    obtain ⟨later, found, rfl⟩ := Option.map_eq_some_iff.mp kept
    rw [List.forall_mem_cons, List.forall_mem_cons, ih found]
  | case6 e es _ _ ih =>
    obtain ⟨later, found, rfl⟩ := Option.map_eq_some_iff.mp kept
    rw [List.forall_mem_cons, List.forall_mem_cons, ih found]

/-- Operands are given up only for a constant that decides the whole. -/
theorem mem_of_operands?_eq_none (decided : operands? k es = none) : .bool (!k.neutral) ∈ es := by
  fun_induction operands? k es with
  | case1 => cases decided
  | case2 es ih => exact List.mem_cons_of_mem _ (ih decided)
  | case3 t es other =>
    rw [Bool.eq_not_of_ne other]
    exact List.mem_cons_self
  | case4 inner es ih => exact List.mem_cons_of_mem _ (ih (Option.map_eq_none_iff.mp decided))
  | case5 d inner es _ ih => exact List.mem_cons_of_mem _ (ih (Option.map_eq_none_iff.mp decided))
  | case6 e es _ _ ih => exact List.mem_cons_of_mem _ (ih (Option.map_eq_none_iff.mp decided))

theorem evalJunction_of_operands?_none (decided : operands? k es = none) :
    evalJunction v k es = some (.bool !k.neutral) :=
  evalJunction_iff.mpr (.inl ⟨rfl, _, mem_of_operands?_eq_none decided, rfl⟩)

/-- Reducing the operands keeps the value, known or not. -/
theorem evalJunction_of_operands?_some (kept : operands? k es = some rest) :
    evalJunction v k rest = evalJunction v k es := by
  have neutral : (∀ e ∈ rest, e.eval v = some (.bool k.neutral)) ↔
      ∀ e ∈ es, e.eval v = some (.bool k.neutral) := by
    refine forall_mem_operands? rfl (fun inner => ?_) kept
    simp [eval, evalJunction_iff]
  have undecided : (∀ e ∈ rest, e.eval v ≠ some (.bool !k.neutral)) ↔
      ∀ e ∈ es, e.eval v ≠ some (.bool !k.neutral) := by
    refine forall_mem_operands? (by simp [eval]) (fun inner => ?_) kept
    simp [eval, evalJunction_iff]
  have decided : (∃ e ∈ rest, e.eval v = some (.bool !k.neutral)) ↔
      ∃ e ∈ es, e.eval v = some (.bool !k.neutral) := by
    simpa using not_congr undecided
  ext x
  rw [evalJunction_iff, evalJunction_iff, neutral, decided]

theorem evalJunction_singleton {t : Bool} :
    evalJunction v k [e] = some (.bool t) ↔ e.eval v = some (.bool t) := by
  rw [evalJunction_iff]
  cases t <;> cases k.neutral <;> simp

/-- A joined list has the truth values of the plain node. -/
theorem eval_join_iff {t : Bool} :
    (join k es).eval v = some (.bool t) ↔ evalJunction v k es = some (.bool t) := by
  unfold join
  split
  · next decided => rw [evalJunction_of_operands?_none decided]; rfl
  · next kept => rw [← evalJunction_of_operands?_some kept]; rfl
  · next kept => rw [← evalJunction_of_operands?_some kept, evalJunction_singleton]
  · next kept => rw [← evalJunction_of_operands?_some kept]; rfl

theorem refines_operands (kept : operands? k es = some rest) :
    (junction k rest).Refines (.junction k es) where
  value known := by
    rw [eval] at known ⊢
    rwa [evalJunction_of_operands?_some kept]
  sorted known := by
    have conditions : ∀ e ∈ rest, e.isCondition = true := by
      refine (forall_mem_operands? (by rfl) (fun inner => ?_) kept).mpr (areConditions_iff.mp known)
      rw [isCondition_iff, isWellSorted, areConditions_iff]
      exact and_iff_left rfl
    exact ⟨areConditions_iff.mpr conditions, rfl⟩
  within := by
    have within : ∀ e ∈ rest, e.occurrences ⊆ occurrencesAll es := by
      refine (forall_mem_operands? (List.nil_subset _) (fun inner => ?_) kept).mpr ?_
      · simp only [occurrences, occurrencesAll_eq_flatMap inner, List.subset_def, List.mem_flatMap]
        grind
      · intro e member s occurs
        rw [occurrencesAll_eq_flatMap]
        exact List.mem_flatMap.mpr ⟨e, member, occurs⟩
    intro s occurs
    rw [occurrences, occurrencesAll_eq_flatMap] at occurs
    obtain ⟨e, member, occurs⟩ := List.mem_flatMap.mp occurs
    exact within e member occurs
  closed known := by
    simp only [hasNondet, anyNondet_eq_any, List.any_eq_false] at known ⊢
    refine (forall_mem_operands? (by simp [hasNondet]) (fun inner => ?_) kept).mpr known
    simp [hasNondet, anyNondet_eq_any]

theorem refines_singleton : e.Refines (.junction k [e]) where
  value known := by
    rcases evalJunction_iff.mp known with ⟨rfl, f, member, value⟩ | ⟨rfl, all⟩
    · rwa [List.mem_singleton.mp member] at value
    · exact all e (List.mem_singleton_self e)
  sorted known := by simpa [isWellSorted, areConditions, sort] using known
  within := by simp [occurrences, occurrencesAll]
  closed known := by simpa [hasNondet, anyNondet] using known

theorem join_refines (k : Connective) (es : List Expr) : (join k es).Refines (.junction k es) := by
  unfold join
  split
  · next decided =>
    refine .bool (fun known => ?_) rfl
    rw [eval, evalJunction_of_operands?_none decided] at known
    exact (Option.some.inj known).symm
  · next kept =>
    refine .trans (.bool (fun known => ?_) rfl) (refines_operands kept)
    exact (Option.some.inj known).symm
  · next kept => exact refines_singleton.trans (refines_operands kept)
  · next kept => exact refines_operands kept

end Lists

/-- An operator's constructor gives the second expression where the plain node of the operands is
the first. -/
inductive Builds : Expr → Expr → Prop
  | add (a b : Expr) : Builds (.arith .add a b) (a.add b)
  | sub (a b : Expr) : Builds (.arith .sub a b) (a.sub b)
  | mul (a b : Expr) : Builds (.arith .mul a b) (a.mul b)
  | neg (a : Expr) : Builds (.minus a) a.neg
  | equal (a b : Expr) : Builds (.equation a b) (a.equal b)
  | lt (a b : Expr) : Builds (.cmp .lt a b) (a.lt b)
  | le (a b : Expr) : Builds (.cmp .le a b) (a.le b)
  | gt (a b : Expr) : Builds (.cmp .gt a b) (a.gt b)
  | ge (a b : Expr) : Builds (.cmp .ge a b) (a.ge b)
  | not (a : Expr) : Builds (.negation a) a.not
  | and (a b : Expr) : Builds (.junction .and [a, b]) (a.and b)
  | or (a b : Expr) : Builds (.junction .or [a, b]) (a.or b)
  | implies (a b : Expr) : Builds (.implication a b) (a.implies b)
  | ite (c a b : Expr) : Builds (.conditional c a b) (ite c a b)
  | conj (es : List Expr) : Builds (.junction .and es) (conj es)
  | disj (es : List Expr) : Builds (.junction .or es) (disj es)

theorem Builds.refines (builds : Builds plain built) : built.Refines plain := by
  cases builds with
  | add a b => exact add_refines a b
  | sub a b => exact sub_refines a b
  | mul a b => exact mul_refines a b
  | neg a => exact neg_refines a
  | equal a b => exact equal_refines a b
  | lt a b => exact lt_refines a b
  | le a b => exact le_refines a b
  | gt a b => exact gt_refines a b
  | ge a b => exact ge_refines a b
  | not a => exact not_refines a
  | and a b => exact join_refines .and [a, b]
  | or a b => exact join_refines .or [a, b]
  | implies a b => exact implies_refines a b
  | ite c a b => exact ite_refines c a b
  | conj es => exact join_refines .and es
  | disj es => exact join_refines .or es

/-- Every constructor keeps the meaning of the plain node: its values under all partial valuations,
its sort if it is well sorted, and its symbols, of which none is added. Under valuations that give
the symbols of a well-sorted node without open values their values, both have the same one. -/
theorem Builds.keeps_meaning (builds : Builds plain built) :
    (∀ v x, plain.eval v = some x → built.eval v = some x) ∧
    (plain.isWellSorted = true → built.isWellSorted = true ∧ built.sort = plain.sort) ∧
    (∀ s ∈ built.symbols, s ∈ plain.symbols) ∧
    (plain.isWellSorted = true → plain.hasNondet = false → ∀ v : Valuation,
      (∀ s ∈ plain.symbols, ∃ x, v s = some x ∧ x.sort = s.sort) →
      ∃ x, plain.eval v = some x ∧ built.eval v = some x) := by
  have refines := builds.refines
  simp only [mem_symbols]
  refine ⟨fun v x known => refines.value known, refines.sorted, ?_, ?_⟩
  · intro s occurs
    exact refines.within occurs
  · intro sorted closed v known
    exact refines.eval_eq sorted closed known

/-- A nested conjunction with a neutral operand, under a valuation that decides it early and under
one that knows all its symbols. -/
theorem Builds.keeps_meaning_nested :
    let p : Symbol := ⟨"p", .bool⟩
    let x : Symbol := ⟨"x", .int⟩
    let below := cmp .lt (var x) (int 3)
    let operands := [bool true, junction .and [var p, negation (var p)], below]
    let plain := junction .and operands
    let built := Expr.conj operands
    let early : Valuation := Model.valuation [(x, .int 5)]
    let full : Valuation := Model.valuation [(p, .bool true), (x, .int 2)]
    built = junction .and [var p, negation (var p), below] ∧
      plain.eval early = some (.bool false) ∧ built.eval early = some (.bool false) ∧
      built.isWellSorted = true ∧ ∃ y, plain.eval full = some y ∧ built.eval full = some y := by
  intro p x below operands plain built early full
  obtain ⟨values, sorts, -, total⟩ := Builds.keeps_meaning (.conj operands)
  have decided : plain.eval early = some (.bool false) := by decide
  have symbols : plain.symbols = [p, x] := by decide
  refine ⟨rfl, decided, values _ _ decided, (sorts (by decide)).1,
    total (by decide) (by decide) full ?_⟩
  rw [symbols, List.forall_mem_cons, List.forall_mem_singleton]
  exact ⟨⟨_, rfl, rfl⟩, ⟨_, rfl, rfl⟩⟩

end TemplateAnalysis.Expr
