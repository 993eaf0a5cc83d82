import Mathlib.Data.List.Nodup
import Mathlib.Logic.Relation
import TemplateAnalysis.Proofs.Expr.Terms
import TemplateAnalysis.Solver.Enumerative

/-! # Formulas sorted into definitions and constraints

The enumerative solver computes the symbols that some formula defines and guesses the others.
Nothing is lost when the formulas are sorted: each of them is a constraint or the equation of a
definition. A symbol has one definition at most, and every other symbol of the formulas is there to
be guessed.
-/

namespace TemplateAnalysis.Enumeration.Problem

/-- The definition of one symbol mentions another. -/
def DependsOn (problem : Problem) (s t : Symbol) : Prop :=
  ∃ rhs, (s, rhs) ∈ problem.definitions ∧ t ∈ rhs.symbols

/-- No symbol is defined through itself. -/
def Acyclic (problem : Problem) : Prop := ∀ s, ¬ Relation.TransGen problem.DependsOn s s

/-- A symbol that is computed or guessed. -/
def Covers (problem : Problem) (s : Symbol) : Prop :=
  (∃ rhs, (s, rhs) ∈ problem.definitions) ∨ s ∈ problem.free

/-- The formula that a definition was taken from. -/
def equationOf (definition : Symbol × Expr) : Expr := .equation (.var definition.1) definition.2

/-- The formulas are the constraints and definitions of a problem, each symbol with one definition
at most. -/
structure Sorts (problem : Problem) (formulas : List Expr) : Prop where
  mem_iff {formula : Expr} : formula ∈ formulas ↔ formula ∈ problem.constraints ∨
    ∃ definition ∈ problem.definitions, formula = equationOf definition
  nodup : (problem.definitions.map (·.1)).Nodup

/-- Constraints and definitions are terms over symbols that are computed or guessed, and none is
both. -/
structure WellPosed (problem : Problem) : Prop where
  nodup : (problem.definitions.map (·.1)).Nodup
  definition_term {s : Symbol} {rhs : Expr} : (s, rhs) ∈ problem.definitions →
    rhs.TermOver problem.Covers s.sort
  constraint_term {constraint : Expr} : constraint ∈ problem.constraints →
    constraint.TermOver problem.Covers .bool
  undefined {s : Symbol} {rhs : Expr} : s ∈ problem.free → (s, rhs) ∉ problem.definitions

variable {problem : Problem} {formulas : List Expr}

/-- Definitions that only mention symbols of a lower rank are acyclic. -/
theorem acyclic_of_rank (rank : Symbol → Nat)
    (lower : ∀ s t, problem.DependsOn s t → rank t < rank s) : problem.Acyclic := by
  have lowers : ∀ {s t}, Relation.TransGen problem.DependsOn s t → rank t < rank s := by
    intro s t path
    induction path with
    | single step => exact lower _ _ step
    | tail _ step ih => exact Nat.lt_trans (lower _ _ step) ih
  exact fun s path => Nat.lt_irrefl _ (lowers path)

section Lookup

variable {definitions : List (Symbol × Expr)} {s : Symbol} {rhs : Expr}

theorem lookup_eq_none_iff :
    definitions.lookup s = none ↔ ∀ rhs, (s, rhs) ∉ definitions := by
  rw [List.lookup_eq_none_iff]
  constructor
  · intro other rhs member
    simpa using other _ member
  · rintro absent ⟨t, rhs⟩ member
    rw [bne_iff_ne]
    rintro rfl
    exact absent rhs member

theorem mem_of_lookup (found : definitions.lookup s = some rhs) : (s, rhs) ∈ definitions := by
  obtain ⟨front, back, rfl, -⟩ := List.lookup_eq_some_iff.mp found
  exact List.mem_append_right _ List.mem_cons_self

theorem lookup_of_mem (nodup : (definitions.map (·.1)).Nodup) (member : (s, rhs) ∈ definitions) :
    definitions.lookup s = some rhs := by
  cases found : definitions.lookup s with
  | none => exact absurd member (lookup_eq_none_iff.mp found rhs)
  | some other =>
    have same := List.inj_on_of_nodup_map nodup (mem_of_lookup found) member rfl
    rw [(Prod.mk.inj same).2]

end Lookup

/-- A formula that is taken as a definition is its equation, and its symbol had none before. -/
theorem definition?_eq_some {definitions : List (Symbol × Expr)} {formula : Expr}
    {definition : Symbol × Expr} (taken : definition? definitions formula = some definition) :
    formula = equationOf definition ∧ definition.1 ∉ definitions.map (·.1) := by
  unfold definition? at taken
  split at taken
  · next s rhs =>
    split at taken
    · cases taken
    · next new =>
      cases taken
      simp only [Bool.or_eq_true, not_or, Bool.not_eq_true, Option.isSome_eq_false_iff,
        Option.isNone_iff_eq_none, lookup_eq_none_iff] at new
      refine ⟨rfl, fun member => ?_⟩
      obtain ⟨⟨t, other⟩, isDefinition, rfl⟩ := List.mem_map.mp member
      exact new.1 other isDefinition
  · cases taken

theorem Sorts.add (sorts : problem.Sorts formulas) (formula : Expr) :
    (problem.add formula).Sorts (formulas ++ [formula]) := by
  unfold Problem.add
  split
  · next definition taken =>
    obtain ⟨rfl, new⟩ := definition?_eq_some taken
    constructor
    · intro other
      simp only [List.mem_append, List.mem_singleton, sorts.mem_iff, or_and_right, exists_or,
        exists_eq_left, or_assoc]
    · simp only [List.map_append, List.map_cons, List.map_nil]
      exact List.Nodup.append sorts.nodup (List.nodup_singleton _) (by simpa using new)
  · refine ⟨?_, sorts.nodup⟩
    intro other
    simp only [List.mem_append, List.mem_singleton, sorts.mem_iff]
    exact or_right_comm

theorem Sorts.foldl_add {done : List Expr} (sorts : problem.Sorts done) (rest : List Expr) :
    (rest.foldl Problem.add problem).Sorts (done ++ rest) := by
  induction rest generalizing problem done with
  | nil => simpa using sorts
  | cons formula rest ih => simpa using ih (sorts.add formula)

theorem sorts_ofFormulas (formulas : List Expr) : (ofFormulas formulas).Sorts formulas := by
  have empty : Problem.Sorts {} [] := ⟨by simp, List.nodup_nil⟩
  have sorted := empty.foldl_add formulas
  exact ⟨sorted.mem_iff, sorted.nodup⟩

private theorem mem_foldl_free {definitions : List (Symbol × Expr)} {s : Symbol}
    (symbols free : List Symbol) :
    s ∈ symbols.foldl (fun free s =>
      if (definitions.lookup s).isSome || free.contains s then free else free ++ [s]) free ↔
      s ∈ free ∨ s ∈ symbols ∧ definitions.lookup s = none := by
  induction symbols generalizing free with
  | nil => simp
  | cons t symbols ih =>
    rw [List.foldl_cons, ih]
    by_cases defined : (definitions.lookup t).isSome || free.contains t
    · rw [if_pos defined]
      have old : s = t → definitions.lookup s = none → s ∈ free := by
        rintro rfl undefined
        simpa [undefined] using defined
      simp only [List.mem_cons]
      tauto
    · rw [if_neg defined]
      have new : s = t → definitions.lookup s = none := by
        rintro rfl
        simpa using (Bool.or_eq_false_iff.mp (Bool.eq_false_iff.mpr defined)).1
      simp only [List.mem_cons, List.mem_append, List.not_mem_nil, or_false]
      tauto

/-- The symbols to be guessed are those that occur and have no definition. -/
theorem mem_free_ofFormulas {s : Symbol} : s ∈ (ofFormulas formulas).free ↔
    (∃ formula ∈ formulas, s ∈ formula.occurrences) ∧
      (ofFormulas formulas).definitions.lookup s = none := by
  change s ∈ freeSymbols _ formulas ↔ _
  unfold freeSymbols
  rw [mem_foldl_free]
  simp only [List.not_mem_nil, false_or, List.mem_flatMap, Expr.mem_symbols]
  rfl

theorem covers_of_occurs {formula : Expr} (member : formula ∈ formulas) {s : Symbol}
    (occurs : s ∈ formula.occurrences) : (ofFormulas formulas).Covers s := by
  cases found : (ofFormulas formulas).definitions.lookup s with
  | some rhs => exact .inl ⟨rhs, mem_of_lookup found⟩
  | none => exact .inr (mem_free_ofFormulas.mpr ⟨⟨formula, member, occurs⟩, found⟩)

/-- Well-sorted formulas without open values make a problem of terms. -/
theorem wellPosed_ofFormulas
    (terms : ∀ formula ∈ formulas, formula.isCondition = true ∧ formula.hasNondet = false) :
    (ofFormulas formulas).WellPosed := by
  have sorts := sorts_ofFormulas formulas
  refine ⟨sorts.nodup, ?_, ?_, ?_⟩
  · intro s rhs isDefinition
    have member := sorts.mem_iff.mpr (.inr ⟨(s, rhs), isDefinition, rfl⟩)
    obtain ⟨condition, closed⟩ := terms _ member
    obtain ⟨sorted, -⟩ := Expr.isCondition_iff.mp condition
    simp only [equationOf, Expr.isWellSorted, Expr.sort, Bool.true_and, Bool.and_eq_true,
      beq_iff_eq] at sorted
    refine ⟨sorted.1, closed, sorted.2.symm, fun t occurs => ?_⟩
    exact covers_of_occurs member (List.mem_append_right _ occurs)
  · intro constraint isConstraint
    have member := sorts.mem_iff.mpr (.inl isConstraint)
    obtain ⟨condition, closed⟩ := terms _ member
    obtain ⟨sorted, sort⟩ := Expr.isCondition_iff.mp condition
    exact ⟨sorted, closed, sort, fun t occurs => covers_of_occurs member occurs⟩
  · intro s rhs isFree
    exact lookup_eq_none_iff.mp (mem_free_ofFormulas.mp isFree).2 rhs

end TemplateAnalysis.Enumeration.Problem
