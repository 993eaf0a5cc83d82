import Mathlib.Order.WellFounded
import TemplateAnalysis.Proofs.Expr.Terms
import TemplateAnalysis.Template.Ranking

/-! # Lexicographic descent

The condition under which a tuple of linear functions ranks a transition, as an expression and as a
relation between the numbers before and after. Arithmetic wraps, so a linear function may take any
value; but a component that decreases is not negative before, and so it can decrease only as often
as it is above zero. Hence no tuple ranks every step of an infinite sequence.
-/

namespace TemplateAnalysis

/-- The value of a linear combination. -/
def linearValue (coefficients numbers : List Int64) : Int64 :=
  (coefficients.zip numbers).foldl (fun sum (c, n) => sum + c * n) 0

private theorem eval_linear_from {v : Valuation} (coefficients : List Int64) {exprs : List Expr}
    {numbers : List Int64} (known : exprs.map (·.eval v) = numbers.map fun n => some (.int n))
    {sum : Expr} {total : Int64} (value : sum.eval v = some (.int total)) :
    ((coefficients.zip exprs).foldl (fun sum (c, e) => sum.add (Expr.mul (.int c) e)) sum).eval v =
      some (.int ((coefficients.zip numbers).foldl (fun sum (c, n) => sum + c * n) total)) := by
  induction coefficients generalizing exprs numbers sum total with
  | nil => exact value
  | cons c coefficients ih =>
    cases exprs with
    | nil =>
      obtain rfl : numbers = [] := by simpa using known.symm
      exact value
    | cons e exprs =>
      cases numbers with
      | nil => cases known
      | cons n numbers =>
        obtain ⟨first, rest⟩ := List.cons.inj known
        apply ih rest
        apply (Expr.add_refines _ _).value
        have product : (Expr.mul (.int c) e).eval v = some (.int (c * n)) :=
          (Expr.mul_refines _ _).value (by simp [Expr.eval, first, ArithOp.apply])
        simp [Expr.eval, value, product, ArithOp.apply]

theorem eval_linear {v : Valuation} {exprs : List Expr} {numbers : List Int64}
    (known : exprs.map (·.eval v) = numbers.map fun n => some (.int n))
    (coefficients : List Int64) :
    (linear coefficients exprs).eval v = some (.int (linearValue coefficients numbers)) :=
  eval_linear_from coefficients known rfl

private theorem linear_term_from {P : Symbol → Prop} (coefficients : List Int64)
    {exprs : List Expr} (terms : ∀ e ∈ exprs, e.TermOver P .int) {sum : Expr}
    (term : sum.TermOver P .int) : ((coefficients.zip exprs).foldl
      (fun sum (c, e) => sum.add (Expr.mul (.int c) e)) sum).TermOver P .int := by
  induction coefficients generalizing exprs sum with
  | nil => exact term
  | cons c coefficients ih =>
    cases exprs with
    | nil => exact term
    | cons e exprs =>
      have product := (Expr.TermOver.int c).mul (terms e List.mem_cons_self)
      exact ih (fun e member => terms e (List.mem_cons_of_mem _ member)) (term.add product)

theorem linear_term {P : Symbol → Prop} {exprs : List Expr}
    (terms : ∀ e ∈ exprs, e.TermOver P .int) (coefficients : List Int64) :
    (linear coefficients exprs).TermOver P .int :=
  linear_term_from coefficients terms (.int 0)

namespace RankingTemplate

/-- A tuple ranks the step from one vector of numbers to another. -/
def ranks : List (List Int64) → List Int64 → List Int64 → Bool
  | [], _, _ => false
  | component :: rest, pre, post =>
    decide (linearValue component post < linearValue component pre) &&
        decide (0 ≤ linearValue component pre) ||
      decide (linearValue component pre = linearValue component post) && ranks rest pre post

/-- Some component after `front` decreases while those before it stay equal. -/
private theorem any_zipIdx_take (pre post : List Int64) (front rest : List (List Int64)) :
    ((rest.zipIdx front.length).any fun (component, j) =>
      (((front ++ rest).take j).all fun earlier =>
        decide (linearValue earlier pre = linearValue earlier post)) &&
      (decide (linearValue component post < linearValue component pre) &&
        decide (0 ≤ linearValue component pre))) =
      ((front.all fun earlier => decide (linearValue earlier pre = linearValue earlier post)) &&
        ranks rest pre post) := by
  induction rest generalizing front with
  | nil => simp [ranks]
  | cons component rest ih =>
    have next := ih (front ++ [component])
    simp only [List.length_append, List.length_singleton, List.append_assoc, List.singleton_append,
      List.all_append, List.all_cons, List.all_nil, Bool.and_true] at next
    rw [List.zipIdx_cons, List.any_cons, next, ranks]
    simp only [List.take_left]
    cases front.all fun earlier => decide (linearValue earlier pre = linearValue earlier post) <;>
      simp

section Lex

variable {vars : List (Expr × Expr)}

/-- The condition of a tuple says that it ranks the step between the values of the variables. -/
theorem eval_lexDecrease {v : Valuation} {pre post : List Int64}
    (before : vars.map (·.1.eval v) = pre.map fun n => some (.int n))
    (after : vars.map (·.2.eval v) = post.map fun n => some (.int n))
    (tuple : List (List Int64)) :
    (lexDecrease vars tuple).eval v = some (.bool (ranks tuple pre post)) := by
  have value : ∀ c, (RankingTemplate.before vars c).eval v = some (.int (linearValue c pre)) :=
    eval_linear (by rw [List.map_map]; exact before)
  have value' : ∀ c, (RankingTemplate.after vars c).eval v = some (.int (linearValue c post)) :=
    eval_linear (by rw [List.map_map]; exact after)
  have ranked := any_zipIdx_take pre post [] tuple
  simp only [List.length_nil, List.nil_append, List.all_nil, Bool.true_and] at ranked
  rw [lexDecrease, ← ranked]
  refine Expr.eval_disj_map fun (component, j) _ => ?_
  have level : ∀ earlier, ((RankingTemplate.before vars earlier).equal
      (RankingTemplate.after vars earlier)).eval v =
        some (.bool (decide (linearValue earlier pre = linearValue earlier post))) :=
    fun earlier => (Expr.equal_refines _ _).value (by simp [Expr.eval, value, value'])
  have decrease : ((RankingTemplate.before vars component).gt
      (RankingTemplate.after vars component)).eval v =
        some (.bool (decide (linearValue component post < linearValue component pre))) :=
    (Expr.gt_refines _ _).value (by simp [Expr.eval, value, value', CmpOp.apply])
  have bounded : ((RankingTemplate.before vars component).ge (.int 0)).eval v =
      some (.bool (decide (0 ≤ linearValue component pre))) :=
    (Expr.ge_refines _ _).value (by simp [Expr.eval, value, CmpOp.apply])
  have isTrue : ∀ b : Bool, (some (Value.bool b) == some (.bool true)) = b := by decide
  refine (Expr.eval_conj_of_bools (fun e => e.eval v == some (.bool true)) ?_).trans ?_
  · intro e member
    rcases List.mem_append.mp member with isLevel | rest
    · obtain ⟨earlier, -, rfl⟩ := List.mem_map.mp isLevel
      rw [level, isTrue]
    · rcases (by simpa using rest : e = _ ∨ e = _) with rfl | rfl
      · rw [decrease, isTrue]
      · rw [bounded, isTrue]
  · simp only [List.all_append, List.all_map, Function.comp_def, List.all_cons, List.all_nil, level,
      decrease, bounded, isTrue, Bool.and_true]

theorem lexDecrease_term {P : Symbol → Prop}
    (terms : ∀ pair ∈ vars, pair.1.TermOver P .int ∧ pair.2.TermOver P .int)
    (tuple : List (List Int64)) : (lexDecrease vars tuple).TermOver P .bool := by
  have before : ∀ c, (RankingTemplate.before vars c).TermOver P .int := linear_term (by
    intro e member
    obtain ⟨pair, isPair, rfl⟩ := List.mem_map.mp member
    exact (terms pair isPair).1)
  have after : ∀ c, (RankingTemplate.after vars c).TermOver P .int := linear_term (by
    intro e member
    obtain ⟨pair, isPair, rfl⟩ := List.mem_map.mp member
    exact (terms pair isPair).2)
  refine Expr.TermOver.disj fun e member => ?_
  obtain ⟨⟨component, j⟩, -, rfl⟩ := List.mem_map.mp member
  refine Expr.TermOver.conj fun e member => ?_
  rcases List.mem_append.mp member with level | rest
  · obtain ⟨earlier, -, rfl⟩ := List.mem_map.mp level
    exact (before earlier).equal (after earlier)
  · rcases (by simpa using rest : e = _ ∨ e = _) with rfl | rfl
    · exact (before component).gt (after component)
    · exact (before component).ge (.int 0)

end Lex

/-- How often a number can still decrease from a value that is not negative. -/
def altitude (n : Int64) : Nat := (n.toInt + 1).toNat

theorem altitude_lt {m n : Int64} (less : m < n) (bounded : 0 ≤ n) : altitude m < altitude n := by
  have less := Int64.lt_iff_toInt_lt.mp less
  have bounded : (0 : Int64).toInt ≤ n.toInt := Int64.le_iff_toInt_le.mp bounded
  have zero : (0 : Int64).toInt = 0 := rfl
  unfold altitude
  omega

/-- No tuple ranks every step of an infinite sequence. -/
theorem wellFounded_ranks (tuple : List (List Int64)) :
    WellFounded fun post pre => ranks tuple pre post = true := by
  induction tuple with
  | nil => exact ⟨fun _ => ⟨_, fun _ ranked => nomatch ranked⟩⟩
  | cons component rest ih =>
    -- either the first component descends, or it stays and the others descend
    have lex := (Prod.lex ⟨_, Nat.lt_wfRel.wf⟩ ⟨_, ih⟩).wf
    refine Subrelation.wf (fun {post pre} ranked => ?_) (InvImage.wf
      (fun numbers => (altitude (linearValue component numbers), numbers)) lex)
    simp only [ranks, Bool.or_eq_true, Bool.and_eq_true, decide_eq_true_eq] at ranked
    rcases ranked with ⟨less, bounded⟩ | ⟨same, later⟩
    · exact .left _ _ (altitude_lt less bounded)
    · change Prod.Lex _ _ (altitude (linearValue component post), post)
        (altitude (linearValue component pre), pre)
      rw [same]
      exact .right _ later

/-- There is no infinite descent: whatever vectors of numbers the variables of a row run through, a
tuple does not rank the step from each vector to the next. -/
theorem descent_ends (row : TemplateRow) (tuple : List (List Int64)) {vectors : Nat → List Int64}
    {readings : Nat → Valuation}
    (before : ∀ k, row.rankingVars.map (·.1.eval (readings k)) =
      (vectors k).map fun n => some (.int n))
    (after : ∀ k, row.rankingVars.map (·.2.eval (readings k)) =
      (vectors (k + 1)).map fun n => some (.int n)) :
    ∃ k, (lexDecrease row.rankingVars tuple).eval (readings k) = some (.bool false) := by
  by_contra ranked
  have descends : ∀ k, ranks tuple (vectors k) (vectors (k + 1)) = true := by
    intro k
    by_contra stays
    apply ranked
    exact ⟨k, by rw [eval_lexDecrease (before k) (after k), Bool.eq_false_iff.mpr stays]⟩
  have chains := wellFounded_iff_isEmpty_descending_chain.mp (wellFounded_ranks tuple)
  exact chains.false ⟨vectors, descends⟩

/-- The first number goes down whenever the second has run out, and the second starts anew then. -/
theorem descent_ends_restarting :
    let names := ["x", "y"]
    let row : TemplateRow := .ranking (names.map fun name =>
      (.var (Name.loopBack name 2).int, .var (Name.version name 1).int)) (.bool true) (.bool true)
    let vectors (k : Nat) : List Int64 := [Int64.ofInt (4 - k / 3), Int64.ofInt (2 - k % 3)]
    let readings (k : Nat) : Valuation := Model.valuation (
      (names.map fun name => (Name.loopBack name 2).int).zip ((vectors k).map .int) ++
        (names.map fun name => (Name.version name 1).int).zip ((vectors (k + 1)).map .int))
    (lexDecrease row.rankingVars [[1, 0], [0, 1]]).eval (readings 2) = some (.bool true) ∧
    (lexDecrease row.rankingVars [[1, 0], [0, 1]]).eval (readings 3) = some (.bool true) ∧
      ∃ k, (lexDecrease row.rankingVars [[1, 0], [0, 1]]).eval (readings k) =
        some (.bool false) := by
  intro names row vectors readings
  have before : ∀ k, row.rankingVars.map (·.1.eval (readings k)) =
      (vectors k).map fun n => some (.int n) := fun _ => rfl
  have after : ∀ k, row.rankingVars.map (·.2.eval (readings k)) =
      (vectors (k + 1)).map fun n => some (.int n) := fun _ => rfl
  refine ⟨?_, ?_, descent_ends row _ before after⟩
  · exact (eval_lexDecrease (before 2) (after 2) _).trans (by decide)
  · exact (eval_lexDecrease (before 3) (after 3) _).trans (by decide)

end RankingTemplate

end TemplateAnalysis
