import TemplateAnalysis.Proofs.Enumeration.Backtracking

/-! # The search within the bound

All models of the search are built from nothing by computing and guessing, so the definitions hold
in them as far as they have values. One round of the search ends in a false constraint, in true ones
only, or with a symbol to guess. So a model that is found solves the problem; and where a solution
lies within the bound, its own values are among the guesses and lead to a model. As failed guesses
are taken back, it is enough to look at guesses that are each made in a model of their own.
-/

namespace TemplateAnalysis.Enumeration

variable {sort : ValueSort} {x : Value}

/-- The integers that are guessed. Every truth value is. -/
def WithinBound (x : Value) : Prop := ∀ n, x = .int n → -bound ≤ n.toInt ∧ n.toInt ≤ bound

theorem sort_of_mem_guesses (member : x ∈ guesses sort) : x.sort = sort := by
  cases sort with
  | bool =>
    simp only [guesses, List.mem_cons, List.not_mem_nil, or_false] at member
    rcases member with rfl | rfl <;> rfl
  | int =>
    simp only [guesses, List.mem_cons, List.mem_flatMap, List.not_mem_nil, or_false] at member
    rcases member with rfl | ⟨k, -, rfl | rfl⟩ <;> rfl

/-- Everything within the bound is guessed. -/
theorem mem_guesses (sorted : x.sort = sort) (within : WithinBound x) : x ∈ guesses sort := by
  subst sorted
  cases x with
  | bool b => cases b <;> simp [guesses, Value.sort]
  | int n =>
    obtain ⟨lower, upper⟩ := within n rfl
    simp only [bound] at lower upper
    have small : ∀ k < 16, (Int64.ofNat (k + 1)).toInt = k + 1 := by decide
    have smallNeg : ∀ k < 16, (-Int64.ofNat (k + 1)).toInt = -(k + 1) := by decide
    simp only [guesses, Value.sort, List.mem_cons, List.mem_flatMap, List.mem_range, bound,
      Value.int.injEq, List.not_mem_nil, or_false]
    rcases Int.lt_trichotomy n.toInt 0 with negative | zero | positive
    · refine .inr ⟨(-n.toInt - 1).toNat, by omega, .inr (Int64.toInt_inj.mp ?_)⟩
      rw [smallNeg _ (by omega)]
      omega
    · exact .inl (Int64.toInt_inj.mp zero)
    · refine .inr ⟨(n.toInt - 1).toNat, by omega, .inl (Int64.toInt_inj.mp ?_)⟩
      rw [small _ (by omega)]
      omega

theorem sort_firstGuess (sort : ValueSort) : (firstGuess sort).sort = sort := by
  cases sort <;> rfl

namespace Problem

variable {problem : Problem} {model : Model}

/-- The models that computing and guessing make. -/
inductive Built (problem : Problem) : Model → Prop
  | empty : Built problem []
  | compute {model : Model} {s : Symbol} {rhs : Expr} {x : Value} (earlier : Built problem model)
      (isDefinition : (s, rhs) ∈ problem.definitions) (unknown : model.valuation s = none)
      (value : rhs.eval model.valuation = some x) : Built problem ((s, x) :: model)
  | guess {model : Model} {s : Symbol} {x : Value} (earlier : Built problem model)
      (isFree : s ∈ problem.free) (unknown : model.valuation s = none)
      (sorted : x.sort = s.sort) : Built problem ((s, x) :: model)

namespace Built

theorem computes {state later : Propagation} (built : problem.Built state.model)
    (computes : problem.Computes state later) : problem.Built later.model := by
  induction computes with
  | start => exact built
  | next _ isDefinition unknown value ih => exact ih.compute isDefinition unknown value

theorem isSorted (wellPosed : problem.WellPosed) (built : problem.Built model) :
    model.valuation.IsSorted := by
  induction built with
  | empty =>
    intro _ _ known
    cases known
  | compute _ isDefinition _ value ih =>
    exact Model.isSorted_cons ih ((wellPosed.definition_term isDefinition).sort_of_eval ih value)
  | guess _ _ _ sorted ih => exact Model.isSorted_cons ih sorted

/-- A defined symbol has no other value than its right side. -/
theorem eval_definition (wellPosed : problem.WellPosed) (built : problem.Built model) {s : Symbol}
    {rhs : Expr} {x : Value} (isDefinition : (s, rhs) ∈ problem.definitions)
    (known : model.valuation s = some x) : rhs.eval model.valuation = some x := by
  induction built with
  | empty => cases known
  | compute _ isOther unknown value ih =>
    refine Expr.eval_mono (Model.extends_cons unknown _) ?_
    rw [Model.valuation_cons] at known
    split at known
    · next same =>
      subst same
      cases known
      have sameRhs := lookup_of_mem wellPosed.nodup isDefinition
      rw [lookup_of_mem wellPosed.nodup isOther] at sameRhs
      cases sameRhs
      exact value
    · exact ih known
  | guess _ isFree unknown _ ih =>
    refine Expr.eval_mono (Model.extends_cons unknown _) ?_
    rw [Model.valuation_cons, if_neg] at known
    · exact ih known
    · rintro rfl
      exact wellPosed.undefined isFree isDefinition

end Built

/-- What the constraints amount to under a sorted valuation. -/
theorem inspect_cases {v : Valuation} (isSorted : v.IsSorted) {P : Symbol → Prop}
    {constraints : List Expr} (terms : ∀ c ∈ constraints, c.TermOver P .bool) :
    (inspect v constraints = .conflict ∧ ∃ c ∈ constraints, c.eval v = some (.bool false)) ∨
    (inspect v constraints = .settled ∧ ∀ c ∈ constraints, c.eval v = some (.bool true)) ∨
    ∃ c ∈ constraints, inspect v constraints = .undecided c ∧ c.eval v = none := by
  induction constraints with
  | nil => exact .inr (.inl ⟨rfl, fun _ member => absurd member List.not_mem_nil⟩)
  | cons c rest ih =>
    have rest := ih fun d member => terms d (List.mem_cons_of_mem _ member)
    rw [inspect]
    cases value : c.eval v with
    | none =>
      obtain ⟨conflict, d, member, isFalse⟩ | ⟨settled, -⟩ | ⟨d, -, undecided, -⟩ := rest
      · exact .inl ⟨by rw [conflict], d, List.mem_cons_of_mem _ member, isFalse⟩
      · exact .inr (.inr ⟨c, List.mem_cons_self, by rw [settled], value⟩)
      · exact .inr (.inr ⟨c, List.mem_cons_self, by rw [undecided], value⟩)
    | some x =>
      obtain ⟨b, rfl⟩ := (terms c List.mem_cons_self).bool_of_eval isSorted value
      cases b with
      | false => exact .inl ⟨rfl, c, List.mem_cons_self, value⟩
      | true =>
        obtain ⟨conflict, d, member, isFalse⟩ | ⟨settled, allTrue⟩ | ⟨d, member, found⟩ := rest
        · exact .inl ⟨conflict, d, List.mem_cons_of_mem _ member, isFalse⟩
        · exact .inr (.inl ⟨settled, List.forall_mem_cons.mpr ⟨value, allTrue⟩⟩)
        · exact .inr (.inr ⟨d, List.mem_cons_of_mem _ member, found⟩)

/-- A guess for each of some symbols that has no value yet. -/
theorem built_foldl {guess : Model → Symbol → Model} {symbols : List Symbol}
    (step : ∀ model, ∀ s ∈ symbols, problem.Built model → problem.Built (guess model s) ∧
      (guess model s).valuation.Extends model.valuation ∧ (guess model s).valuation s ≠ none)
    (built : problem.Built model) :
    problem.Built (symbols.foldl guess model) ∧
      (symbols.foldl guess model).valuation.Extends model.valuation ∧
      ∀ s ∈ symbols, (symbols.foldl guess model).valuation s ≠ none := by
  induction symbols generalizing model with
  | nil => exact ⟨built, fun _ _ known => known, fun _ member => absurd member List.not_mem_nil⟩
  | cons s rest ih =>
    obtain ⟨builtFirst, extendsFirst, guessed⟩ := step model s List.mem_cons_self built
    obtain ⟨builtRest, extendsRest, allGuessed⟩ :=
      ih (fun model t member => step model t (List.mem_cons_of_mem _ member)) builtFirst
    refine ⟨builtRest, fun t x known => extendsRest t x (extendsFirst t x known), ?_⟩
    refine List.forall_mem_cons.mpr ⟨?_, allGuessed⟩
    obtain ⟨x, value⟩ := Option.ne_none_iff_exists'.mp guessed
    rw [List.foldl_cons, extendsRest s x value]
    exact Option.some_ne_none x

/-- Completion keeps all values and leaves nothing to be guessed or computed. -/
theorem built_complete (built : problem.Built model) :
    problem.Built (problem.complete model) ∧
      (problem.complete model).valuation.Extends model.valuation ∧
      (∀ s ∈ problem.free, (problem.complete model).valuation s ≠ none) ∧
      problem.IsPropagated (problem.complete model).valuation := by
  rw [complete]
  generalize guessed : problem.free.foldl _ model = guesses
  have spec : problem.Built guesses ∧ guesses.valuation.Extends model.valuation ∧
      ∀ s ∈ problem.free, guesses.valuation s ≠ none := by
    rw [← guessed]
    refine built_foldl (fun model s isFree built => ?_) built
    split
    · next x known =>
      refine ⟨built, fun _ _ known => known, ?_⟩
      rw [known]
      exact Option.some_ne_none x
    · next unknown =>
      refine ⟨built.guess isFree unknown (sort_firstGuess _), Model.extends_cons unknown _, ?_⟩
      rw [Model.valuation_cons, if_pos rfl]
      exact Option.some_ne_none _
  obtain ⟨builtGuesses, extendsGuesses, allGuessed⟩ := spec
  have computes := computes_propagate problem guesses
  refine ⟨builtGuesses.computes computes, ?_, ?_, isPropagated_propagate problem guesses⟩
  · exact fun s x known => computes.keeps s x (extendsGuesses s x known)
  · intro s isFree
    obtain ⟨x, value⟩ := Option.ne_none_iff_exists'.mp (allGuessed s isFree)
    rw [computes.keeps s x value]
    exact Option.some_ne_none x

/-- A model that makes all constraints true and has a value for every symbol, computed where there
is a definition. -/
structure Solves (problem : Problem) (model : Model) : Prop where
  built : problem.Built model
  constraint {c : Expr} : c ∈ problem.constraints → c.eval model.valuation = some (.bool true)
  valued {s : Symbol} : problem.Covers s → ∃ x, model.valuation s = some x

section Search

variable (wellPosed : problem.WellPosed) (acyclic : problem.Acyclic)
include wellPosed acyclic

/-- One round of the search: a constraint is false, or all are true and the model is completed, or
there is a symbol to guess. -/
theorem extension_cases (built : problem.Built model) (guess : Symbol → Model → Option Model) :
    let later := (problem.propagate model).model
    (problem.extension guess later = none ∧
      ∃ c ∈ problem.constraints, c.eval later.valuation = some (.bool false)) ∨
    (∃ found, problem.extension guess later = some found ∧ problem.Solves found) ∨
    ∃ s ∈ problem.free, later.valuation s = none ∧
      problem.extension guess later = guess s later := by
  dsimp only
  have builtLater := built.computes (computes_propagate problem model)
  have isSorted := builtLater.isSorted wellPosed
  rw [extension]
  obtain ⟨conflict, false⟩ | ⟨settled, allTrue⟩ | ⟨c, isConstraint, undecided, unknown⟩ :=
    inspect_cases isSorted fun _ isConstraint => wellPosed.constraint_term isConstraint
  · rw [conflict]
    exact .inl ⟨rfl, false⟩
  · rw [settled]
    obtain ⟨builtFound, keeps, guessed, isPropagated⟩ := built_complete builtLater
    refine .inr (.inl ⟨_, rfl, builtFound, ?_, ?_⟩)
    · exact fun member => Expr.eval_mono keeps (allTrue _ member)
    · exact exists_value wellPosed acyclic (builtFound.isSorted wellPosed) isPropagated guessed
  · rw [undecided]
    obtain ⟨s, isFree, isUnknown, branch⟩ := exists_branchSymbol wellPosed acyclic isSorted
      (isPropagated_propagate problem model) (wellPosed.constraint_term isConstraint) unknown
    refine .inr (.inr ⟨s, isFree, isUnknown, ?_⟩)
    dsimp only
    rw [branch, Option.bind_some]

/-- What a round finds solves the problem, if what is found with a guess does. -/
theorem solves_of_extension {found : Model} {guess : Symbol → Model → Option Model}
    (built : problem.Built model)
    (solves : ∀ s ∈ problem.free, (problem.propagate model).model.valuation s = none →
      guess s (problem.propagate model).model = some found → problem.Solves found)
    (isFound : problem.extension guess (problem.propagate model).model = some found) :
    problem.Solves found := by
  obtain ⟨none, -⟩ | ⟨other, isOther, solvesOther⟩ | ⟨s, isFree, unknown, guessed⟩ :=
    extension_cases wellPosed acyclic built guess
  · rw [none] at isFound
    cases isFound
  · rw [isOther] at isFound
    cases isFound
    exact solvesOther
  · exact solves s isFree unknown (guessed.symm.trans isFound)

/-- Whatever is found solves the problem. -/
theorem solves_of_firstModel {n : Nat} {found : Model} (built : problem.Built model)
    (isFound : problem.firstModel n model = some found) : problem.Solves found := by
  induction n generalizing model with
  | zero =>
    refine solves_of_extension wellPosed acyclic built (fun s isFree unknown none => ?_) isFound
    cases none
  | succ n ih =>
    refine solves_of_extension wellPosed acyclic built (fun s isFree unknown tried => ?_) isFound
    obtain ⟨guess, isGuess, foundGuess⟩ := List.exists_of_findSome?_eq_some tried
    have builtLater := built.computes (computes_propagate problem model)
    exact ih (builtLater.guess isFree unknown (sort_of_mem_guesses isGuess)) foundGuess

/-- A round does not fail where an assignment solves the problem and agrees with the model, if no
guess fails. -/
theorem exists_extension {m : Assignment} {guess : Symbol → Model → Option Model}
    (constraints : ∀ c ∈ problem.constraints, c.eval m.valuation = some (.bool true))
    (built : problem.Built model)
    (agrees : m.valuation.Extends (problem.propagate model).model.valuation)
    (guessed : ∀ s ∈ problem.free, (problem.propagate model).model.valuation s = none →
      ∃ found, guess s (problem.propagate model).model = some found) :
    ∃ found, problem.extension guess (problem.propagate model).model = some found := by
  obtain ⟨-, c, member, isFalse⟩ | ⟨found, isFound, -⟩ | ⟨s, isFree, unknown, isGuess⟩ :=
    extension_cases wellPosed acyclic built guess
  · -- the assignment would make the constraint false as well
    have isTrue := constraints c member
    rw [Expr.eval_mono agrees isFalse] at isTrue
    cases isTrue
  · exact ⟨found, isFound⟩
  · rw [isGuess]
    exact guessed s isFree unknown

/-- If an assignment within the bound solves the problem and agrees with the model so far, a model
is found. -/
theorem exists_firstModel {m : Assignment}
    (constraints : ∀ c ∈ problem.constraints, c.eval m.valuation = some (.bool true))
    (definitions : ∀ d ∈ problem.definitions, (equationOf d).eval m.valuation = some (.bool true))
    (within : ∀ s ∈ problem.free, WithinBound (m s)) {n : Nat} (built : problem.Built model)
    (agrees : m.valuation.Extends model.valuation)
    (enough : Model.gaps problem.free model ≤ n) :
    ∃ found, problem.firstModel n model = some found := by
  induction n generalizing model with
  | zero =>
    have computes := computes_propagate problem model
    refine exists_extension wellPosed acyclic constraints built
      (computes.agrees definitions agrees) fun s isFree unknown => ?_
    -- there is no gap left to be guessed
    have noMore := Model.gaps_le computes.keeps problem.free
    have none := Nat.le_zero.mp (Nat.le_trans noMore enough)
    have known := List.countP_eq_zero.mp none s isFree
    rw [unknown] at known
    exact absurd rfl known
  | succ n ih =>
    have computes := computes_propagate problem model
    have agreesLater := computes.agrees definitions agrees
    refine exists_extension wellPosed acyclic constraints built agreesLater
      fun s isFree unknown => ?_
    have fewer := Model.gaps_lt (Model.extends_cons unknown (m s)) isFree unknown
      (by rw [Model.valuation_cons, if_pos rfl])
    have noMore := Model.gaps_le computes.keeps problem.free
    have builtGuess := (built.computes computes).guess isFree unknown (m.sorted s)
    have agreesGuess := agreesLater.cons (m.valuation_apply s)
    dsimp only at noMore
    obtain ⟨found, isFound⟩ := ih builtGuess agreesGuess (by omega)
    rw [← Option.isSome_iff_exists, List.findSome?_isSome_iff]
    exact ⟨m s, mem_guesses (m.sorted s) (within s isFree), by rw [isFound]; rfl⟩

end Search

section Solve

variable {formulas : List Expr}
  (terms : ∀ formula ∈ formulas, formula.isCondition = true ∧ formula.hasNondet = false)
  (acyclic : (ofFormulas formulas).Acyclic)
include terms acyclic

/-- All formulas are true in a model that is found, and all their symbols have values. -/
theorem eval_of_solve (found : (ofFormulas formulas).solve = some model) {formula : Expr}
    (member : formula ∈ formulas) : formula.eval model.valuation = some (.bool true) ∧
      ∀ s ∈ formula.occurrences, ∃ x, model.valuation s = some x ∧ x.sort = s.sort := by
  have wellPosed := wellPosed_ofFormulas terms
  rw [solve, outcome_search] at found
  have solves := solves_of_firstModel wellPosed acyclic .empty found
  constructor
  · rcases (sorts_ofFormulas formulas).mem_iff.mp member with
      isConstraint | ⟨⟨s, rhs⟩, isDefinition, rfl⟩
    · exact solves.constraint isConstraint
    · obtain ⟨x, value⟩ := solves.valued (.inl ⟨rhs, isDefinition⟩)
      have same := solves.built.eval_definition wellPosed isDefinition value
      exact Expr.eval_equation_iff.mpr ⟨x, x, value, same, by rw [decide_eq_true rfl]⟩
  · intro s occurs
    obtain ⟨x, value⟩ := solves.valued (covers_of_occurs member occurs)
    exact ⟨x, value, solves.built.isSorted wellPosed s x value⟩

/-- If no model is found, no assignment within the bound satisfies the formulas. -/
theorem not_satisfies_of_solve (none : (ofFormulas formulas).solve = none) {m : Assignment}
    (within : ∀ s ∈ (ofFormulas formulas).free, WithinBound (m s)) : ¬ m.Satisfies formulas := by
  intro satisfies
  rw [solve, outcome_search] at none
  have sorts := sorts_ofFormulas formulas
  have emptyAgrees : m.valuation.Extends (Model.valuation []) := by
    intro s x known
    cases known
  obtain ⟨found, isFound⟩ := exists_firstModel (wellPosed_ofFormulas terms) acyclic
    (fun c isConstraint => satisfies c (sorts.mem_iff.mpr (.inl isConstraint)))
    (fun d isDefinition => satisfies _ (sorts.mem_iff.mpr (.inr ⟨d, isDefinition, rfl⟩)))
    within .empty emptyAgrees List.countP_le_length
  exact Option.some_ne_none found (isFound.symm.trans none)

end Solve

end Problem

end TemplateAnalysis.Enumeration
