import TemplateAnalysis.Proofs.Fixpoint
import TemplateAnalysis.Proofs.Ssa.Following
import TemplateAnalysis.Template.Observation

/-! # What observations mean in a model

Templates speak about symbols of the form only, so the literals of a query are never among them. Of
a loop, a template sees what arrives at the head over the back edge and what is about to: in a model
that follows an execution at the source of the back edge, the latter is the store that the step back
leads to.
-/

namespace TemplateAnalysis.Frame

variable {frame : Frame} {table : SymbolTable}

/-- A symbol of the form, which belongs to a location or is an input. -/
def Own (frame : Frame) (s : Symbol) : Prop :=
  ∃ (name : Name) (sort : ValueSort), s = name.symbol sort ∧ name.IsProper ∧
    frame.rank name ≤ 2 * frame.body.length

theorem Own.noLiteral (number : Nat) (s : Symbol) (own : frame.Own s) :
    Run.NoLiteral number s := by
  obtain ⟨name, sort, rfl, isProper, rank⟩ := own
  intro row same
  have literal : (Name.violation number row).IsProper := nofun
  obtain ⟨rfl, -⟩ := Name.eq_of_symbol_eq isProper literal same
  simp only [Frame.rank] at rank
  omega

theorem own_edge {loc : Nat} (inside : loc < frame.body.length) (s : Symbol)
    (isEdge : EdgeSymbol loc s) : frame.Own s := by
  rcases isEdge with rfl | rfl
  · refine ⟨.guard loc, .bool, rfl, Name.isProper_of_none rfl, ?_⟩
    simp only [rank]
    omega
  · refine ⟨.cond loc, .bool, rfl, Name.isProper_of_none rfl, ?_⟩
    simp only [rank]
    omega

theorem own_guard {loc : Nat} (inside : loc < frame.body.length) :
    (Expr.var (Name.guard loc).bool).TermOver frame.Own .bool :=
  (guard_term loc).mono (own_edge inside)

/-- What a session holds once the formulas of a procedure have been loaded. -/
def loaded (frame : Frame) : List (List Expr) :=
  [(frame.equalities.map Equality.formula).reverse]

theorem mem_loaded {formula : Expr} :
    formula ∈ frame.loaded.flatten ↔ ∃ e ∈ frame.equalities, e.formula = formula := by
  simp [loaded]

theorem satisfies_loaded {m : Assignment} :
    m.Satisfies frame.loaded.flatten ↔ m.Solves frame.equalities := by
  simp only [Assignment.Satisfies, mem_loaded, forall_exists_index, and_imp,
    forall_apply_eq_imp_iff₂, Equality.eval_formula_iff, Assignment.Solves]

namespace Proper

variable (proper : frame.Proper table)
include proper

theorem own_version {object : Symbol} (isObject : object ∈ frame.objects) {d : Definition}
    (rank : frame.rank (d.name object) ≤ 2 * frame.body.length) :
    frame.Own (d.version object) :=
  ⟨_, _, d.version_eq object, proper.definition_isProper isObject d, rank⟩

/-- The formulas of a procedure are over its own symbols. -/
theorem formula_term {e : Equality} (isEquality : e ∈ frame.equalities) :
    e.formula.TermOver frame.Own .bool := by
  obtain ⟨loc, instruction, here, located⟩ := frame.mem_equalities.mp isEquality
  obtain ⟨name, defines, -, rank⟩ := proper.equalitiesAt_defines here located
  have inside := (List.getElem?_eq_some_iff.mp here).1
  have lhs : frame.Own e.lhs := ⟨name, _, defines.lhs_eq, defines.proper, by omega⟩
  refine Expr.TermOver.equal (.var lhs) (defines.rhs_term.mono ?_)
  rintro s ⟨other, sort, rfl, isProper, available⟩
  exact ⟨other, sort, rfl, isProper, by omega⟩

/-- A session with the formulas of the procedure holds nothing about the literals of a query. -/
theorem loaded_terms (number : Nat) :
    ∀ formula ∈ frame.loaded.flatten, formula.TermOver (Run.NoLiteral number) .bool := by
  intro formula isHeld
  obtain ⟨e, isEquality, rfl⟩ := mem_loaded.mp isHeld
  exact (proper.formula_term isEquality).mono (Own.noLiteral number)

theorem back_edge_inside {head b : Nat} (isBack : b ∈ frame.flow.backEdges head) :
    head ≤ b ∧ b < frame.body.length := by
  rw [proper.flow_eq] at isBack
  obtain ⟨edge, closes⟩ := Flow.mem_backEdges.mp isBack
  exact ⟨closes, Accepted.source_lt edge⟩

theorem own_loopSelect {head b : Nat} (isBack : b ∈ frame.flow.backEdges head) :
    frame.Own (loopSelect b) := by
  have inside := proper.back_edge_inside isBack
  have rank := proper.rank_loopSelect isBack
  exact ⟨.loopSelect b, .bool, rfl, nofun, by omega⟩

theorem own_loopBack {head b : Nat} (isBack : b ∈ frame.flow.backEdges head) {object : Symbol}
    (isObject : object ∈ frame.objects) : frame.Own (loopBack object b) := by
  have inside := proper.back_edge_inside isBack
  have rank := proper.rank_loopBack isBack object.name
  exact ⟨.loopBack object.name b, object.sort, rfl, proper.back_isProper isObject b, by omega⟩

section Loops

variable {loop : Loop} (isBack : loop.backEdge ∈ frame.flow.backEdges loop.head)
include isBack

theorem arriving_term : (frame.loopGuards loop true).1.TermOver frame.Own .bool := by
  have inside := proper.back_edge_inside isBack
  exact (own_guard (by omega)).and (.var (proper.own_loopSelect isBack))

theorem leaving_term : (frame.loopGuards loop true).2.TermOver frame.Own .bool := by
  have inside := (proper.back_edge_inside isBack).2
  exact (edgeGuard_term (List.getElem?_eq_getElem inside) loop.head).mono (own_edge inside)

theorem holds_arriving (m : Assignment) : m.holds (frame.loopGuards loop true).1 =
    (m.truth (Name.guard loop.head).bool && m.truth (loopSelect loop.backEdge)) := by
  have inside := proper.back_edge_inside isBack
  exact m.holds_and (own_guard (by omega)) (.var (proper.own_loopSelect isBack))

/-- A loop is observed through the objects merged at its head: what arrives over the back edge, and
the version at the back edge. -/
theorem mem_observeLoop {o : Observation} : o ∈ frame.observeLoop loop true ↔
    ∃ object ∈ frame.mergedObjects loop.head, o =
      { object
        var := loopBack object loop.backEdge
        postVar := (frame.definitionAfter loop.backEdge object).version object
        preGuard := (frame.loopGuards loop true).1
        postGuard := (frame.loopGuards loop true).2
        role := .loop } := by
  have inside := proper.back_edge_inside isBack
  simp only [observeLoop, List.mem_filterMap, if_true]
  refine exists_congr fun object => and_congr_right fun isMerged => ?_
  have isObject := ((proper.mem_mergedObjects (by omega)).mp isMerged).1
  rw [proper.readAfter?_eq inside.2 isObject, Option.map_some, Option.some.injEq, eq_comm]

end Loops

end Proper

end TemplateAnalysis.Frame
