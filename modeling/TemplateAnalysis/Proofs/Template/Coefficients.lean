import TemplateAnalysis.Proofs.Template.Descent

/-! # Constraints on coefficients

The condition that a tuple ranks a transition is written twice: over the variables, with the
coefficients as constants, and over the coefficients, with the numbers of one transition as
constants. The second speaks of the difference of the two vectors instead of comparing two linear
functions, and arithmetic wraps, so they need not agree: where the difference overflows, a component
that decreases may seem to increase. The other way round nothing is lost, because a component that
decreases is not negative before.
-/

namespace TemplateAnalysis

/-- The difference of two numbers does not overflow. -/
def ExactDifference (a b : Int64) : Prop := (a - b).toInt = a.toInt - b.toInt

section Differences

variable {a b : Int64}

/-- A positive difference from a number that is not negative has not wrapped. -/
theorem lt_of_difference_pos (bounded : 0 ≤ a) (positive : 0 < a - b) : b < a := by
  rw [Int64.le_iff_toInt_le, Int64.toInt_zero] at bounded
  rw [Int64.lt_iff_toInt_lt, Int64.toInt_zero, Int64.toInt_sub] at positive
  rw [Int64.lt_iff_toInt_lt]
  have aBelow := a.toInt_lt
  have bBelow := b.toInt_lt
  by_contra notLess
  rw [Int.bmod_eq_of_le (by omega) (by omega)] at positive
  omega

theorem difference_pos_of_lt (exactly : ExactDifference a b) (less : b < a) : 0 < a - b := by
  rw [Int64.lt_iff_toInt_lt] at less
  rw [Int64.lt_iff_toInt_lt, Int64.toInt_zero, exactly]
  omega

theorem difference_eq_zero_iff : a - b = 0 ↔ a = b := by
  grind

end Differences

private theorem linearValue_sub_from (coefficients : List Int64) {pre post : List Int64}
    (widths : pre.length = post.length) (a b : Int64) :
    (coefficients.zip (pre.zipWith (· - ·) post)).foldl (fun sum (c, n) => sum + c * n) (a - b) =
      (coefficients.zip pre).foldl (fun sum (c, n) => sum + c * n) a -
        (coefficients.zip post).foldl (fun sum (c, n) => sum + c * n) b := by
  induction coefficients generalizing pre post a b with
  | nil => rfl
  | cons c coefficients ih =>
    match pre, post, widths with
    | [], [], _ => rfl
    | x :: pre, y :: post, widths =>
      have step : a - b + c * (x - y) = a + c * x - (b + c * y) := by grind
      simp only [List.zipWith_cons_cons, List.zip_cons_cons, List.foldl_cons]
      rw [step]
      exact ih (Nat.succ.inj widths) _ _

/-- A linear function of the difference is the difference of its values, wrapping or not. -/
theorem linearValue_sub (coefficients : List Int64) {pre post : List Int64}
    (widths : pre.length = post.length) :
    linearValue coefficients (pre.zipWith (· - ·) post) =
      linearValue coefficients pre - linearValue coefficients post :=
  linearValue_sub_from coefficients widths 0 0

namespace RankingTemplate

/-- A tuple ranks a step at the first component that changes. -/
theorem ranks_iff {tuple : List (List Int64)} {pre post : List Int64} :
    ranks tuple pre post = true ↔ ∃ (j : Nat) (component : List Int64),
      tuple[j]? = some component ∧
      (∀ i < j, ∀ earlier, tuple[i]? = some earlier →
        linearValue earlier pre = linearValue earlier post) ∧
      linearValue component post < linearValue component pre ∧
      0 ≤ linearValue component pre := by
  induction tuple with
  | nil => simp [ranks]
  | cons first rest ih =>
    simp only [ranks, Bool.or_eq_true, Bool.and_eq_true, decide_eq_true_eq, ih]
    constructor
    · rintro (⟨decreases, bounded⟩ | ⟨level, j, component, isComponent, levels, decreases⟩)
      · refine ⟨0, first, rfl, ?_, decreases, bounded⟩
        intro i before
        exact absurd before (Nat.not_lt_zero i)
      · refine ⟨j + 1, component, isComponent, ?_, decreases⟩
        intro i before earlier isEarlier
        cases i with
        | zero =>
          cases isEarlier
          exact level
        | succ i => exact levels i (Nat.lt_of_succ_lt_succ before) earlier isEarlier
    · rintro ⟨j, component, isComponent, levels, decreases⟩
      cases j with
      | zero =>
        cases isComponent
        exact .inl decreases
      | succ j =>
        refine .inr ⟨levels 0 (Nat.succ_pos j) first rfl, j, component, isComponent, ?_, decreases⟩
        intro i before earlier isEarlier
        exact levels (i + 1) (Nat.succ_lt_succ before) earlier isEarlier

variable (template : RankingTemplate) (row : Nat) (w : Valuation)

/-- The coefficient that a valuation gives to a variable in a component; a missing one is zero. -/
def coefficientOf (j k : Nat) : Int64 := (w.int? (template.coefficient row j k)).getD 0

/-- The component that a valuation gives over `width` variables. -/
def componentOf (width j : Nat) : List Int64 :=
  (List.range width).map (template.coefficientOf row w j)

theorem tupleOf_getElem? {width j : Nat} {component : List Int64} :
    (template.tupleOf row width w)[j]? = some component ↔
      j < template.components ∧ template.componentOf row w width j = component := by
  have isMap : template.tupleOf row width w =
    (List.range template.components).map (template.componentOf row w width) := rfl
  rw [isMap, List.getElem?_map]
  by_cases inside : j < template.components
  · simp [inside]
  · simp [inside]

variable {template row w}

section Forms

variable {j : Nat}

private theorem eval_coefficientForm_inv_from (numbers : List Int64) {start : Nat} {sum : Expr}
    {total n : Int64} (isSum : ∀ x, sum.eval w = some (.int x) → x = total)
    (whole : ((numbers.zipIdx start).foldl (fun sum (n, k) =>
      sum.add (Expr.mul (.var (template.coefficient row j k)) (.int n))) sum).eval w =
        some (.int n)) :
    n = (((List.range' start numbers.length).map (template.coefficientOf row w j)).zip
      numbers).foldl (fun sum (c, n) => sum + c * n) total := by
  induction numbers generalizing start sum total with
  | nil => exact isSum n whole
  | cons number numbers ih =>
    refine ih ?_ whole
    intro x value
    obtain ⟨before, product, isBefore, isProduct, rfl⟩ := Expr.eval_add_inv value
    rw [isSum before isBefore, Expr.eval_mul_int_inv isProduct]
    rfl

/-- The value of a linear form over coefficients, if it has one; coefficients without a value count
as zero. -/
theorem eval_coefficientForm_inv {numbers : List Int64} {n : Int64}
    (value : (template.coefficientForm row j numbers).eval w = some (.int n)) :
    n = linearValue (template.componentOf row w numbers.length j) numbers := by
  rw [linearValue, componentOf, List.range_eq_range']
  exact eval_coefficientForm_inv_from numbers (fun x zero => by cases zero; rfl) value

/-- A valuation gives an integer to every coefficient of a row over `width` variables. -/
def Assigns (template : RankingTemplate) (row width : Nat) (w : Valuation) : Prop :=
  ∀ j < template.components, ∀ k < width, ∃ c, w (template.coefficient row j k) = some (.int c)

private theorem eval_coefficientForm_from (numbers : List Int64) {start : Nat} {sum : Expr}
    {total : Int64} (isSum : sum.eval w = some (.int total))
    (assigned : ∀ k < start + numbers.length,
      ∃ c, w (template.coefficient row j k) = some (.int c)) :
    ((numbers.zipIdx start).foldl (fun sum (n, k) =>
      sum.add (Expr.mul (.var (template.coefficient row j k)) (.int n))) sum).eval w =
      some (.int ((((List.range' start numbers.length).map (template.coefficientOf row w j)).zip
        numbers).foldl (fun sum (c, n) => sum + c * n) total)) := by
  induction numbers generalizing start sum total with
  | nil => exact isSum
  | cons number numbers ih =>
    rw [List.length_cons] at assigned
    refine ih ?_ (fun k below => assigned k (by omega))
    obtain ⟨c, isCoefficient⟩ := assigned start (by omega)
    have isInt : template.coefficientOf row w j start = c := by
      simp [coefficientOf, Valuation.int?, isCoefficient]
    rw [isInt]
    apply (Expr.add_refines _ _).value
    have product : (Expr.mul (.var (template.coefficient row j start)) (.int number)).eval w =
        some (.int (c * number)) :=
      (Expr.mul_refines _ _).value (by simp [Expr.eval, isCoefficient, ArithOp.apply])
    simp [Expr.eval, isSum, product, ArithOp.apply]

theorem eval_coefficientForm {numbers : List Int64}
    (assigned : template.Assigns row numbers.length w) (inside : j < template.components) :
    (template.coefficientForm row j numbers).eval w =
      some (.int (linearValue (template.componentOf row w numbers.length j) numbers)) := by
  rw [linearValue, componentOf, List.range_eq_range']
  refine eval_coefficientForm_from numbers rfl fun k below => assigned j inside k ?_
  rwa [Nat.zero_add] at below

end Forms

/-- What the constraint of a transition says of the linear forms over the coefficients. -/
theorem eval_coefficientConstraint_iff {pre post : List Int64} :
    (template.coefficientConstraint row pre post).eval w = some (.bool true) ↔
      ∃ j < template.components,
        (∀ i < j, (template.coefficientForm row i (pre.zipWith (· - ·) post)).eval w =
          some (.int 0)) ∧
        (∃ n, (template.coefficientForm row j (pre.zipWith (· - ·) post)).eval w = some (.int n) ∧
          0 < n) ∧
        ∃ n, (template.coefficientForm row j pre).eval w = some (.int n) ∧ 0 ≤ n := by
  rw [coefficientConstraint, Expr.eval_disj_iff]
  simp only [List.mem_map, List.mem_range, exists_exists_and_eq_and, Expr.eval_conj_iff,
    List.forall_mem_append, List.forall_mem_cons, forall_exists_index, and_imp,
    forall_apply_eq_imp_iff₂, List.not_mem_nil, false_imp_iff, implies_true, and_true,
    Expr.eval_equal_int_iff, Expr.eval_gt_int_iff, Expr.eval_ge_int_iff]

section Agreement

variable {pre post : List Int64}

private theorem length_difference (widths : pre.length = post.length) :
    (pre.zipWith (· - ·) post).length = pre.length := by
  rw [List.length_zipWith, ← widths, Nat.min_self]

theorem eval_differenceForm_inv (widths : pre.length = post.length) {j : Nat} {n : Int64}
    (value : (template.coefficientForm row j (pre.zipWith (· - ·) post)).eval w = some (.int n)) :
    n = linearValue (template.componentOf row w pre.length j) pre -
      linearValue (template.componentOf row w pre.length j) post := by
  rw [← linearValue_sub _ widths, ← length_difference widths]
  exact eval_coefficientForm_inv value

theorem eval_differenceForm (widths : pre.length = post.length)
    (assigned : template.Assigns row pre.length w) {j : Nat} (inside : j < template.components) :
    (template.coefficientForm row j (pre.zipWith (· - ·) post)).eval w =
      some (.int (linearValue (template.componentOf row w pre.length j) pre -
        linearValue (template.componentOf row w pre.length j) post)) := by
  rw [← linearValue_sub _ widths, ← length_difference widths]
  rw [← length_difference widths] at assigned
  exact eval_coefficientForm assigned inside

/-- Coefficients that satisfy the constraint of a transition rank it. -/
theorem ranks_of_eval_coefficientConstraint (widths : pre.length = post.length)
    (holds : (template.coefficientConstraint row pre post).eval w = some (.bool true)) :
    ranks (template.tupleOf row pre.length w) pre post = true := by
  obtain ⟨j, inside, levels, ⟨decrease, isDecrease, positive⟩, before, isBefore, bounded⟩ :=
    eval_coefficientConstraint_iff.mp holds
  rw [eval_differenceForm_inv widths isDecrease] at positive
  rw [eval_coefficientForm_inv isBefore] at bounded
  apply ranks_iff.mpr
  refine ⟨j, _, (tupleOf_getElem? ..).mpr ⟨inside, rfl⟩, ?_, ?_, bounded⟩
  · intro i earlier component isComponent
    obtain ⟨-, rfl⟩ := (tupleOf_getElem? ..).mp isComponent
    exact difference_eq_zero_iff.mp (eval_differenceForm_inv widths (levels i earlier)).symm
  · exact lt_of_difference_pos bounded positive

/-- Coefficients that rank a transition satisfy its constraint, as far as no difference
overflows. -/
theorem eval_coefficientConstraint_of_ranks (widths : pre.length = post.length)
    (assigned : template.Assigns row pre.length w)
    (exactly : ∀ component ∈ template.tupleOf row pre.length w,
      ExactDifference (linearValue component pre) (linearValue component post))
    (ranked : ranks (template.tupleOf row pre.length w) pre post = true) :
    (template.coefficientConstraint row pre post).eval w = some (.bool true) := by
  have value := fun j => eval_differenceForm (j := j) widths assigned
  obtain ⟨j, component, isComponent, levels, decreases, bounded⟩ := ranks_iff.mp ranked
  have exactDecrease := exactly component (List.mem_of_getElem? isComponent)
  obtain ⟨inside, rfl⟩ := (tupleOf_getElem? ..).mp isComponent
  apply eval_coefficientConstraint_iff.mpr
  refine ⟨j, inside, ?_, ⟨_, value j inside, difference_pos_of_lt exactDecrease decreases⟩,
    ⟨_, eval_coefficientForm assigned inside, bounded⟩⟩
  intro i earlier
  have within : i < template.components := by omega
  rw [value i within]
  have level := levels i earlier _ ((tupleOf_getElem? ..).mpr ⟨within, rfl⟩)
  rw [difference_eq_zero_iff.mpr level]

/-- Where a difference overflows, a tuple that ranks the transition may break the constraint. -/
example : let template : RankingTemplate := { number := 0, maxComponents := 1, maxSearches := 1 }
    ranks [[1]] [Int64.maxValue] [-1] = true ∧
      (template.coefficientConstraint 0 [Int64.maxValue] [-1]).eval (fun _ => some (.int 1)) =
        some (.bool false) := by
  decide +kernel

end Agreement

end RankingTemplate

end TemplateAnalysis
