import TemplateAnalysis.Proofs.Enumeration.Propagation

/-! # What an undecided expression hangs on

A term without a value has an operand without one, and in the end a symbol. If the symbol is
defined, its right side has no value either, once nothing is left to be computed. No definition is
met twice on the way down, as none leads back to its own symbol. So the search for a symbol to guess
finds one for every undecided term, although it looks at each symbol only once.
-/

namespace TemplateAnalysis

/-- Every value is of the sort of its symbol. -/
def Valuation.IsSorted (v : Valuation) : Prop := ∀ s x, v s = some x → x.sort = s.sort

theorem Model.isSorted_cons {model : Model} (isSorted : model.valuation.IsSorted) {s : Symbol}
    {x : Value} (sorted : x.sort = s.sort) : (Model.valuation ((s, x) :: model)).IsSorted := by
  intro t y known
  rw [Model.valuation_cons] at known
  split at known
  · next same =>
    cases known
    rw [same]
    exact sorted
  · exact isSorted t y known

/-- Induction on expressions, with a hypothesis for each operand. -/
theorem Expr.induction_on_children {motive : Expr → Prop}
    (step : ∀ e : Expr, (∀ child ∈ e.children, motive child) → motive e) (e : Expr) :
    motive e := by
  induction e using Expr.induction with
  | var s => exact step _ (by simp [children])
  | bool b => exact step _ (by simp [children])
  | int n => exact step _ (by simp [children])
  | nondet sort => exact step _ (by simp [children])
  | minus a ha => exact step _ (by simpa [children] using ha)
  | negation a ha => exact step _ (by simpa [children] using ha)
  | junction c es ih => exact step _ ih
  | conditional c a b hc ha hb => exact step _ (by simpa [children] using ⟨hc, ha, hb⟩)
  | arith op a b ha hb => exact step _ (by simpa [children] using ⟨ha, hb⟩)
  | equation a b ha hb => exact step _ (by simpa [children] using ⟨ha, hb⟩)
  | cmp op a b ha hb => exact step _ (by simpa [children] using ⟨ha, hb⟩)
  | implication a b ha hb => exact step _ (by simpa [children] using ⟨ha, hb⟩)

namespace Expr.TermOver

variable {P : Symbol → Prop} {sort : ValueSort} {v : Valuation} {e : Expr} {x : Value}

/-- The operands of a term are terms. -/
theorem of_child (term : TermOver P sort e) {child : Expr} (member : child ∈ e.children) :
    ∃ sort, TermOver P sort child := by
  cases e with
  | var s => cases member
  | bool b => cases member
  | int n => cases member
  | nondet sort => cases member
  | minus a =>
    obtain rfl := List.mem_singleton.mp member
    exact ⟨_, term.of_minus⟩
  | negation a =>
    obtain rfl := List.mem_singleton.mp member
    exact ⟨_, term.of_negation⟩
  | junction c es => exact ⟨_, term.of_junction child member⟩
  | conditional c a b =>
    obtain ⟨termC, termA, termB⟩ := term.of_conditional
    rcases (by simpa [children] using member : child = c ∨ child = a ∨ child = b)
      with rfl | rfl | rfl
    · exact ⟨_, termC⟩
    · exact ⟨_, termA⟩
    · exact ⟨_, termB⟩
  | arith op a b =>
    obtain ⟨termA, termB⟩ := term.of_arith
    rcases (by simpa [children] using member : child = a ∨ child = b) with rfl | rfl
    · exact ⟨_, termA⟩
    · exact ⟨_, termB⟩
  | equation a b =>
    obtain ⟨termA, termB⟩ := term.of_equation
    rcases (by simpa [children] using member : child = a ∨ child = b) with rfl | rfl
    · exact ⟨_, termA⟩
    · exact ⟨_, termB⟩
  | cmp op a b =>
    obtain ⟨termA, termB⟩ := term.of_cmp
    rcases (by simpa [children] using member : child = a ∨ child = b) with rfl | rfl
    · exact ⟨_, termA⟩
    · exact ⟨_, termB⟩
  | implication a b =>
    obtain ⟨termA, termB⟩ := term.of_implication
    rcases (by simpa [children] using member : child = a ∨ child = b) with rfl | rfl
    · exact ⟨_, termA⟩
    · exact ⟨_, termB⟩

/-- A value of a term is of its sort, also where other symbols have no values. -/
theorem sort_of_eval (term : TermOver P sort e) (isSorted : v.IsSorted)
    (value : e.eval v = some x) : x.sort = sort := by
  let total : Assignment :=
    { value := fun s => (v s).getD s.sort.default
      sorted := by
        intro s
        cases known : v s with
        | none => exact s.sort.sort_default
        | some y => exact isSorted s y known }
  have keeps : total.valuation.Extends v := by
    intro s y known
    exact congrArg (fun y => some (y.getD s.sort.default)) known
  obtain ⟨y, totalValue, sorted⟩ := term.eval total
  rw [eval_mono keeps value] at totalValue
  cases totalValue
  exact sorted

/-- A truth value of a term that has a value. -/
theorem bool_of_eval (term : TermOver P .bool e) (isSorted : v.IsSorted)
    (value : e.eval v = some x) : ∃ b, x = .bool b :=
  Value.bool_of_sort (term.sort_of_eval isSorted value)

/-- An integer of a term that has a value. -/
theorem int_of_eval (term : TermOver P .int e) (isSorted : v.IsSorted)
    (value : e.eval v = some x) : ∃ n, x = .int n :=
  Value.int_of_sort (term.sort_of_eval isSorted value)

/-- If a term has no value, it is a symbol or has an operand without a value. -/
theorem unknown_cases (term : TermOver P sort e) (isSorted : v.IsSorted)
    (unknown : e.eval v = none) :
    (∃ s, e = .var s) ∨ ∃ child ∈ e.children, child.eval v = none := by
  by_contra known
  simp only [not_or, not_exists, not_and, ← ne_eq, Option.ne_none_iff_exists'] at known
  obtain ⟨notVar, known⟩ := known
  cases e with
  | var s => exact notVar s rfl
  | bool b => cases unknown
  | int n => cases unknown
  | nondet sort => cases term.closed
  | arith op a b =>
    obtain ⟨x, evalA⟩ := known a (by simp [children])
    obtain ⟨y, evalB⟩ := known b (by simp [children])
    obtain ⟨m, rfl⟩ := term.of_arith.1.int_of_eval isSorted evalA
    obtain ⟨n, rfl⟩ := term.of_arith.2.int_of_eval isSorted evalB
    simp [Expr.eval, evalA, evalB] at unknown
  | minus a =>
    obtain ⟨x, evalA⟩ := known a (by simp [children])
    obtain ⟨n, rfl⟩ := term.of_minus.int_of_eval isSorted evalA
    simp [Expr.eval, evalA] at unknown
  | equation a b =>
    obtain ⟨x, evalA⟩ := known a (by simp [children])
    obtain ⟨y, evalB⟩ := known b (by simp [children])
    simp [Expr.eval, evalA, evalB] at unknown
  | cmp op a b =>
    obtain ⟨x, evalA⟩ := known a (by simp [children])
    obtain ⟨y, evalB⟩ := known b (by simp [children])
    obtain ⟨m, rfl⟩ := term.of_cmp.1.int_of_eval isSorted evalA
    obtain ⟨n, rfl⟩ := term.of_cmp.2.int_of_eval isSorted evalB
    simp [Expr.eval, evalA, evalB] at unknown
  | negation a =>
    obtain ⟨x, evalA⟩ := known a (by simp [children])
    obtain ⟨b, rfl⟩ := term.of_negation.bool_of_eval isSorted evalA
    simp [Expr.eval, evalA] at unknown
  | junction c es =>
    have bools : ∀ e ∈ es, e.eval v = some (.bool (e.eval v == some (.bool true))) := by
      intro e member
      obtain ⟨x, value⟩ := known e member
      obtain ⟨b, rfl⟩ := (term.of_junction e member).bool_of_eval isSorted value
      cases b <;> simp [value]
    change evalJunction v c es = none at unknown
    rw [evalJunction_of_bools _ bools] at unknown
    cases unknown
  | implication a b =>
    obtain ⟨x, evalA⟩ := known a (by simp [children])
    obtain ⟨y, evalB⟩ := known b (by simp [children])
    obtain ⟨p, rfl⟩ := term.of_implication.1.bool_of_eval isSorted evalA
    obtain ⟨q, rfl⟩ := term.of_implication.2.bool_of_eval isSorted evalB
    cases p <;> cases q <;> simp [Expr.eval, evalA, evalB] at unknown
  | conditional c a b =>
    obtain ⟨x, evalC⟩ := known c (by simp [children])
    obtain ⟨y, evalA⟩ := known a (by simp [children])
    obtain ⟨z, evalB⟩ := known b (by simp [children])
    obtain ⟨t, rfl⟩ := term.of_conditional.1.bool_of_eval isSorted evalC
    rw [eval_conditional_of_bool evalC] at unknown
    cases t
    · rw [if_neg Bool.false_ne_true, evalB] at unknown
      cases unknown
    · rw [if_pos rfl, evalA] at unknown
      cases unknown

end Expr.TermOver

namespace Enumeration.Problem

variable {problem : Problem} {v : Valuation}

/-- A search found a symbol to guess that has no value. -/
def Finds (problem : Problem) (v : Valuation) (found : Option Symbol × List Symbol) : Prop :=
  ∃ s ∈ problem.free, v s = none ∧ found.1 = some s

section Dependency

variable {look : Expr → List Symbol → Option Symbol × List Symbol} {seen : List Symbol}

/-- The search goes into the first operand without a value. -/
theorem finds_dependencyAny {es : List Expr}
    (finds : ∀ e ∈ es, e.eval v = none → problem.Finds v (dependency look problem v e seen))
    (unknown : ∃ e ∈ es, e.eval v = none) :
    problem.Finds v (dependencyAny look problem v es seen) := by
  induction es with
  | nil => simp at unknown
  | cons e es ih =>
    rw [dependencyAny]
    cases value : e.eval v with
    | none =>
      obtain ⟨s, isFree, isUnknown, found⟩ := finds e List.mem_cons_self value
      generalize dependency look problem v e seen = first at found
      obtain ⟨_, seen⟩ := first
      cases found
      exact ⟨s, isFree, isUnknown, rfl⟩
    | some x =>
      have nothing : dependency look problem v e seen = (none, seen) := by
        rw [dependency.eq_def, if_pos (by rw [value]; rfl)]
      rw [nothing]
      refine ih (fun f member => finds f (List.mem_cons_of_mem _ member)) ?_
      simpa [value] using unknown

/-- Except in symbols and choices, the search goes through the operands one after the other. -/
theorem dependency_eq_dependencyAny {e : Expr} (unknown : e.eval v = none)
    (notVar : ∀ s, e ≠ .var s) (notConditional : ∀ c a b, e ≠ .conditional c a b) :
    dependency look problem v e seen = dependencyAny look problem v e.children seen := by
  have single : ∀ (a : Expr) (seen : List Symbol),
      dependencyAny look problem v [a] seen = dependency look problem v a seen := by
    intro a seen
    simp only [dependencyAny]
    rcases dependency look problem v a seen with ⟨_ | _, _⟩ <;> rfl
  rw [dependency.eq_def, if_neg (by rw [unknown]; exact Bool.false_ne_true)]
  cases e with
  | var s => exact absurd rfl (notVar s)
  | bool b => cases unknown
  | int n => cases unknown
  | nondet sort => rfl
  | minus a => exact (single a seen).symm
  | negation a => exact (single a seen).symm
  | junction c es => rfl
  | conditional c a b => exact absurd rfl (notConditional c a b)
  | arith _ a b | equation a b | cmp _ a b | implication a b =>
    rw [Expr.children, dependencyAny]
    simp only [single]

/-- A symbol that has a value, or has not been looked at and can be looked into with success. -/
def Opens (problem : Problem) (v : Valuation)
    (look : Expr → List Symbol → Option Symbol × List Symbol) (seen : List Symbol)
    (s : Symbol) : Prop :=
  problem.Covers s ∧ (v s = none → s ∉ seen ∧
    ∀ rhs, (s, rhs) ∈ problem.definitions → problem.Finds v (look rhs (s :: seen)))

/-- In a term without a value a symbol to guess is found, if one is found in the definition of every
symbol without a value. -/
theorem finds_dependency (isSorted : v.IsSorted) {e : Expr} {sort : ValueSort}
    (term : e.TermOver (problem.Opens v look seen) sort) (unknown : e.eval v = none) :
    problem.Finds v (dependency look problem v e seen) := by
  induction e using Expr.induction_on_children generalizing sort with
  | step e ih =>
    by_cases isVar : ∃ s, e = .var s
    · obtain ⟨s, rfl⟩ := isVar
      obtain ⟨covered, opens⟩ := term.within s (by simp [Expr.occurrences])
      obtain ⟨fresh, finds⟩ := opens unknown
      rw [dependency.eq_def, if_neg (by rw [unknown]; exact Bool.false_ne_true)]
      dsimp only
      rw [if_neg (by simpa using fresh)]
      cases found : problem.definitions.lookup s with
      | some rhs => exact finds rhs (mem_of_lookup found)
      | none =>
        rcases covered with ⟨rhs, isDefinition⟩ | isFree
        · exact absurd isDefinition (lookup_eq_none_iff.mp found rhs)
        · exact ⟨s, isFree, unknown, rfl⟩
    by_cases isConditional : ∃ c a b, e = .conditional c a b
    · obtain ⟨c, a, b, rfl⟩ := isConditional
      obtain ⟨termC, termA, termB⟩ := term.of_conditional
      rw [dependency.eq_def, if_neg (by rw [unknown]; exact Bool.false_ne_true)]
      dsimp only
      cases evalC : c.eval v with
      | none => exact ih c (by simp [Expr.children]) termC evalC
      | some x =>
        obtain ⟨t, rfl⟩ := termC.bool_of_eval isSorted evalC
        rw [Expr.eval_conditional_of_bool evalC] at unknown
        cases t
        · exact ih b (by simp [Expr.children]) termB unknown
        · exact ih a (by simp [Expr.children]) termA unknown
    · rw [dependency_eq_dependencyAny unknown (fun s same => isVar ⟨s, same⟩)
        (fun c a b same => isConditional ⟨c, a, b, same⟩)]
      refine finds_dependencyAny (fun child member childUnknown => ?_)
        ((term.unknown_cases isSorted unknown).resolve_left isVar)
      obtain ⟨_, childTerm⟩ := term.of_child member
      exact ih child member childTerm childUnknown

theorem unknown_of_dependencyAny {es : List Expr} {s : Symbol}
    (unknown : ∀ e ∈ es, ∀ seen, (dependency look problem v e seen).1 = some s → v s = none)
    (found : (dependencyAny look problem v es seen).1 = some s) : v s = none := by
  induction es generalizing seen with
  | nil => cases found
  | cons e es ih =>
    rw [dependencyAny] at found
    split at found
    · next first =>
      refine unknown e List.mem_cons_self seen ?_
      rw [first]
      exact found
    · exact ih (fun f member => unknown f (List.mem_cons_of_mem _ member)) found

/-- What is found has no value, if this is so for what is found in definitions. -/
theorem unknown_of_dependency {s : Symbol}
    (unknown : ∀ rhs seen, (look rhs seen).1 = some s → v s = none) {e : Expr}
    (found : (dependency look problem v e seen).1 = some s) : v s = none := by
  induction e using Expr.induction_on_children generalizing seen with
  | step e ih =>
    cases value : e.eval v with
    | some x =>
      rw [dependency.eq_def, if_pos (by rw [value]; rfl)] at found
      cases found
    | none =>
      by_cases isVar : ∃ t, e = .var t
      · obtain ⟨t, rfl⟩ := isVar
        rw [dependency.eq_def, if_neg (by rw [value]; exact Bool.false_ne_true)] at found
        dsimp only at found
        split at found
        · cases found
        · split at found
          · exact unknown _ _ found
          · cases found
            exact value
      by_cases isConditional : ∃ c a b, e = .conditional c a b
      · obtain ⟨c, a, b, rfl⟩ := isConditional
        rw [dependency.eq_def, if_neg (by rw [value]; exact Bool.false_ne_true)] at found
        dsimp only at found
        split at found
        · exact ih a (by simp [Expr.children]) found
        · exact ih b (by simp [Expr.children]) found
        · exact ih c (by simp [Expr.children]) found
      · rw [dependency_eq_dependencyAny value (fun t same => isVar ⟨t, same⟩)
          (fun c a b same => isConditional ⟨c, a, b, same⟩)] at found
        exact unknown_of_dependencyAny (fun child member _ => ih child member) found

end Dependency

/-- The symbol to guess has no value. -/
theorem unknown_of_branchSymbol {constraint : Expr} {s : Symbol}
    (branch : problem.branchSymbol v constraint = some s) : v s = none := by
  have within : ∀ n e seen, (problem.dependencyWithin v n e seen).1 = some s → v s = none := by
    intro n
    induction n with
    | zero => exact fun e seen found => unknown_of_dependency (fun _ _ none => by cases none) found
    | succ n ih => exact fun e seen found => unknown_of_dependency ih found
  exact within _ constraint [] branch

section Within

variable (wellPosed : problem.WellPosed) (acyclic : problem.Acyclic) (isSorted : v.IsSorted)
  (isPropagated : problem.IsPropagated v)
include wellPosed acyclic isSorted isPropagated

/-- The symbols that have been looked at all lead to the expression at hand, so it mentions none of
them; and there are not more of them than definitions. -/
theorem finds_dependencyWithin {n : Nat} {e : Expr} {sort : ValueSort} {seen : List Symbol}
    (term : e.TermOver problem.Covers sort) (unknown : e.eval v = none) (nodup : seen.Nodup)
    (defined : seen ⊆ problem.definitions.map (·.1))
    (leads : ∀ t ∈ seen, ∀ s ∈ e.occurrences, Relation.TransGen problem.DependsOn t s)
    (enough : problem.definitions.length ≤ n + seen.length) :
    problem.Finds v (problem.dependencyWithin v n e seen) := by
  have fresh : ∀ s ∈ e.occurrences, s ∉ seen :=
    fun s occurs isSeen => acyclic s (leads s isSeen s occurs)
  induction n generalizing e sort seen with
  | zero =>
    refine finds_dependency isSorted ⟨term.sorted, term.closed, term.sort_eq, fun s occurs =>
      ⟨term.within s occurs, fun _ => ⟨fresh s occurs, ?_⟩⟩⟩ unknown
    -- all definitions have been looked at
    intro rhs isDefinition
    have isDefined : s ∈ problem.definitions.map (·.1) := List.mem_map.mpr ⟨_, isDefinition, rfl⟩
    have bound := List.Nodup.length_le_of_subset (List.nodup_cons.mpr ⟨fresh s occurs, nodup⟩)
      (List.cons_subset.mpr ⟨isDefined, defined⟩)
    simp only [List.length_cons, List.length_map] at bound
    omega
  | succ n ih =>
    refine finds_dependency isSorted ⟨term.sorted, term.closed, term.sort_eq, fun s occurs =>
      ⟨term.within s occurs, fun unvalued => ⟨fresh s occurs, ?_⟩⟩⟩ unknown
    intro rhs isDefinition
    have isDefined : s ∈ problem.definitions.map (·.1) := List.mem_map.mpr ⟨_, isDefinition, rfl⟩
    have leadsOn : ∀ t ∈ s :: seen, ∀ u ∈ rhs.occurrences,
        Relation.TransGen problem.DependsOn t u := by
      intro t isSeen u mentioned
      have step : problem.DependsOn s u := ⟨rhs, isDefinition, Expr.mem_symbols.mpr mentioned⟩
      rcases List.mem_cons.mp isSeen with rfl | isEarlier
      · exact .single step
      · exact (leads t isEarlier s occurs).tail step
    refine ih (wellPosed.definition_term isDefinition) (isPropagated s rhs isDefinition unvalued)
      (List.nodup_cons.mpr ⟨fresh s occurs, nodup⟩) (List.cons_subset.mpr ⟨isDefined, defined⟩)
      leadsOn ?_ (fun u mentioned isSeen => acyclic u (leadsOn u isSeen u mentioned))
    simp only [List.length_cons]
    omega

/-- For an undecided term there is a symbol to guess. -/
theorem exists_branchSymbol {e : Expr} {sort : ValueSort} (term : e.TermOver problem.Covers sort)
    (unknown : e.eval v = none) :
    ∃ s ∈ problem.free, v s = none ∧ problem.branchSymbol v e = some s :=
  finds_dependencyWithin wellPosed acyclic isSorted isPropagated term unknown List.nodup_nil
    (List.nil_subset _) (fun _ none => absurd none List.not_mem_nil) (Nat.le_refl _)

/-- Once all guesses are made, every symbol has a value. -/
theorem exists_value (guessed : ∀ s ∈ problem.free, v s ≠ none) {s : Symbol}
    (covered : problem.Covers s) : ∃ x, v s = some x := by
  cases known : v s with
  | some x => exact ⟨x, rfl⟩
  | none =>
    obtain ⟨t, isFree, unvalued, -⟩ := exists_branchSymbol wellPosed acyclic isSorted isPropagated
      (.var covered) known
    exact absurd unvalued (guessed t isFree)

end Within

end Enumeration.Problem

end TemplateAnalysis
