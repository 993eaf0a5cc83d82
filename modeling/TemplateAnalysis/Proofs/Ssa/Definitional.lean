import TemplateAnalysis.Ssa.Node
import TemplateAnalysis.Proofs.Execution

/-! # Definitional extension

A list of definitions in which no right-hand side reads its own symbol or one that is defined later
has a solution over any assignment: work the list off in order. The solution differs from the
assignment at the defined symbols only, and it is the only one that does.
-/

namespace TemplateAnalysis

namespace Equality

/-- The right-hand side has a value of the sort of the left-hand side. -/
def IsWellSorted (e : Equality) : Prop :=
  e.rhs.isWellSorted = true ∧ e.rhs.hasNondet = false ∧ e.rhs.sort = e.lhs.sort

/-- A later definition changes neither the symbol of an earlier one nor what it reads. -/
def Precedes (e later : Equality) : Prop := later.lhs ≠ e.lhs ∧ later.lhs ∉ e.rhs.occurrences

end Equality

/-- Definitions that can be worked off in order. -/
structure Ordered (equalities : List Equality) : Prop where
  wellSorted : ∀ e ∈ equalities, e.IsWellSorted
  irreflexive : ∀ e ∈ equalities, e.lhs ∉ e.rhs.occurrences
  pairwise : equalities.Pairwise Equality.Precedes

theorem Ordered.of_cons {e : Equality} {rest : List Equality} (ordered : Ordered (e :: rest)) :
    (∀ later ∈ rest, e.Precedes later) ∧ Ordered rest := by
  obtain ⟨first, others⟩ := List.pairwise_cons.mp ordered.pairwise
  refine ⟨first, fun d member => ?_, fun d member => ?_, others⟩
  · exact ordered.wellSorted d (List.mem_cons_of_mem e member)
  · exact ordered.irreflexive d (List.mem_cons_of_mem e member)

namespace Assignment

/-- Every definition of a list holds. -/
def Solves (a : Assignment) (equalities : List Equality) : Prop :=
  ∀ e ∈ equalities, e.rhs.eval a.valuation = some (a e.lhs)

/-- The assignment in which the definitions of a list are worked off in order. -/
def define (a : Assignment) : List Equality → Assignment
  | [] => a
  | e :: rest => (a.update e.lhs (e.rhs.eval a.valuation)).define rest

theorem update_other {a : Assignment} {s t : Symbol} {x : Option Value} (other : t ≠ s) :
    a.update s x t = a t := by
  cases x with
  | none => rfl
  | some x => exact set_other other

theorem define_of_not_defined {a : Assignment} {equalities : List Equality} {s : Symbol}
    (free : ∀ e ∈ equalities, e.lhs ≠ s) : a.define equalities s = a s := by
  induction equalities generalizing a with
  | nil => rfl
  | cons e rest ih =>
    have here := free e List.mem_cons_self
    rw [define, ih fun d member => free d (List.mem_cons_of_mem e member)]
    exact update_other here.symm

/-- Working off definitions in order solves them. -/
theorem solves_define (a : Assignment) {equalities : List Equality}
    (ordered : Ordered equalities) : (a.define equalities).Solves equalities := by
  induction equalities generalizing a with
  | nil => exact fun e member => absurd member List.not_mem_nil
  | cons e rest ih =>
    obtain ⟨first, others⟩ := ordered.of_cons
    intro d member
    rcases List.mem_cons.mp member with rfl | later
    · obtain ⟨sorted, closed, sort⟩ := ordered.wellSorted d List.mem_cons_self
      obtain ⟨x, value, sortX⟩ := Expr.eval_assignment a sorted closed
      have kept : (a.define (d :: rest)) d.lhs = x := by
        rw [define, define_of_not_defined fun later member => (first later member).1, value]
        exact set_self (sortX.trans sort)
      -- what the right-hand side reads is changed by no definition from here on
      have read : ∀ s ∈ d.rhs.occurrences,
          (a.define (d :: rest)).valuation s = a.valuation s := by
        intro s occurs
        have other : s ≠ d.lhs := fun same =>
          ordered.irreflexive d List.mem_cons_self (same ▸ occurs)
        have free : ∀ later ∈ rest, later.lhs ≠ s := fun later member same =>
          (first later member).2 (same ▸ occurs)
        rw [valuation_apply, valuation_apply, define, define_of_not_defined free,
          update_other other]
      rw [Expr.eval_congr read, value, kept]
    · exact ih _ others d later

/-- Definitions that can be worked off in order determine what they define. -/
theorem eq_of_solves {a b : Assignment} {equalities : List Equality} (ordered : Ordered equalities)
    (solves : a.Solves equalities) (solves' : b.Solves equalities)
    (agree : ∀ s, (∀ e ∈ equalities, e.lhs ≠ s) → a s = b s) : a = b := by
  induction equalities with
  | nil => exact ext fun s => agree s (List.forall_mem_nil _)
  | cons e rest ih =>
    obtain ⟨first, others⟩ := ordered.of_cons
    have isFirst : e ∈ e :: rest := List.mem_cons_self
    -- what the first right-hand side reads is defined neither here nor later
    have read : ∀ s ∈ e.rhs.occurrences, a.valuation s = b.valuation s := by
      intro s occurs
      have free : ∀ d ∈ e :: rest, d.lhs ≠ s := by
        refine List.forall_mem_cons.mpr ⟨fun same => ?_, fun later member same => ?_⟩
        · exact ordered.irreflexive e isFirst (same ▸ occurs)
        · exact (first later member).2 (same ▸ occurs)
      rw [valuation_apply, valuation_apply, agree s free]
    have here : a e.lhs = b e.lhs := by
      have values := solves e isFirst
      rw [Expr.eval_congr read, solves' e isFirst] at values
      exact (Option.some.inj values).symm
    refine ih others (fun d member => solves d (List.mem_cons_of_mem e member))
      (fun d member => solves' d (List.mem_cons_of_mem e member)) fun s free => ?_
    by_cases same : e.lhs = s
    · rw [← same, here]
    · exact agree s (List.forall_mem_cons.mpr ⟨same, free⟩)

end Assignment

/-- A definition as a formula is true where the right-hand side has the value of the symbol. -/
theorem Equality.eval_formula_iff {a : Assignment} {e : Equality} :
    e.formula.eval a.valuation = some (.bool true) ↔ e.rhs.eval a.valuation = some (a e.lhs) := by
  have shape : e.formula = .equation (.var e.lhs) e.rhs := by
    unfold Equality.formula
    cases e.rhs <;> rfl
  rw [shape]
  simp only [Expr.eval, Assignment.valuation_apply]
  cases e.rhs.eval a.valuation with
  | none => simp
  | some x => simp [eq_comm]

end TemplateAnalysis
