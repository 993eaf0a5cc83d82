import TemplateAnalysis.Proofs.Ssa.OverApproximation
import TemplateAnalysis.Proofs.Unwinding.Copies

/-! # The guards of copied nodes

A copied node defines the guard of its location under as many counters as there are loops around the
location. The guard that the node is said to have stands under the counters of the unwinding, of
which there are as many as loops around the head. So the two are the same only where no loop inside
the unwound one contains the location. In an inner loop, the assertions of a copy are turned into
constraints under a literal that nothing defines.
-/

namespace TemplateAnalysis

section

variable {table : SymbolTable} {frame : Frame} {params : List Symbol}

theorem guard_mem_copied {copying : Copying} (base : copying.ssa = frame.complete params)
    (loc : Nat) (instruction : Instruction) :
    (Name.guard loc).bool ∈ copying.defined loc instruction := by
  have same : copying.ssa.toFrame = frame := by rw [base]; rfl
  simp only [Copying.defined, same]
  split
  · next atHead =>
    subst atHead
    simp [Copying.rebuilt]
  · exact frame.guard_mem_nodeAt loc instruction

variable (regular : frame.Regular table) {copies : List Copying}
  (series : (frame.complete params).Series copies) {copying : Copying} (isCopy : copying ∈ copies)
  {node : Node} {first : Nat} (isNode : node ∈ copying.nodes first)
include regular series isCopy isNode

/-- A copied node defines the guard of its location under the counters of the loops around it. -/
theorem guard_mem_defined_copy : (Name.guard node.location).bool.unwound
    (Odometer.suffixOf copying.levels (frame.flow.depth node.location)) ∈ node.defined := by
  obtain ⟨instruction, here, within, -, -, -, defined⟩ :=
    series.exists_defined regular isCopy isNode
  rw [defined]
  exact List.mem_map_of_mem (guard_mem_copied (series.ssa_eq copying isCopy) _ instruction)

/-- A copied node defines the guard it is said to have where its location lies in no inner loop. -/
theorem guard_mem_defined_iff_depth :
    node.guard ∈ node.defined ↔ frame.flow.depth node.location = frame.flow.depth copying.head := by
  obtain ⟨instruction, here, within, -, suffix, introduced, defined⟩ :=
    series.exists_defined regular isCopy isNode
  have depth : copying.levels.length = frame.flow.depth copying.head := series.depth copying isCopy
  constructor
  · intro member
    rw [defined, Node.guard, suffix] at member
    obtain ⟨s, isDefined, same⟩ := List.mem_map.mp member
    obtain ⟨name, isLocal, text, -, -⟩ := regular.exists_introduces (introduced s isDefined)
    have plain : IsPlain (Name.guard node.location).text := Name.isPlain rfl
    have suffixes := (Symbol.unwound_injective (text ▸ Name.isPlain isLocal) plain
      (Odometer.not_mem_suffixOf (by decide) (by decide) _ _)
      (Odometer.not_mem_suffixOf (by decide) (by decide) _ _) same).2
    have nonempty := series.suffixOf_ne_empty regular isCopy within
    rw [Odometer.depth_eq_of_suffixOf_eq nonempty suffixes, depth]
  · intro depths
    have member := guard_mem_defined_copy regular series isCopy isNode
    rwa [depths, ← depth, ← suffix] at member

end

/-- Every node defines a guard of its location. It is the guard that the node is said to have, and
under which its assertions become constraints, exactly if the node is no copy or its location lies
in no loop inside the unwound one. -/
theorem Unwinds.guard_mem_defined_iff {function : String} {procedure : Procedure}
    {table : SymbolTable} {ssa unwound : Ssa}
    (built : Ssa.build function procedure table = .ok ssa) {heads : List Nat} {u : Unwinder}
    (run : Unwinds ssa heads u unwound) {position : Nat} {node : Node}
    (found : unwound.nodes[position]? = some node) :
    (∃ levels, node.suffix = Odometer.suffixOf levels levels.length ∧
      (Name.guard node.location).bool.unwound
        (Odometer.suffixOf levels (ssa.flow.depth node.location)) ∈ node.defined) ∧
    (node.guard ∈ node.defined ↔ node.suffix = "" ∨
      ∃ head, node.enabling = .var (Name.enable head node.suffix).bool ∧
        ssa.flow.depth node.location = ssa.flow.depth head) ∧
    ∃ constrained, unwound.constrainAssertions.nodes[position]? = some constrained ∧
      constrained.defined = node.defined ∧ constrained.constraints = node.constraints ++
        node.assertions.map fun assertion => (Expr.var node.guard).implies assertion := by
  obtain ⟨frame, isFrame, rfl⟩ := Ssa.frame_of_build built
  obtain ⟨regular, -, -⟩ := Frame.regular_of_build isFrame
  obtain ⟨copies, series, rfl⟩ := run.exists_series regular
  rw [← and_assoc]
  refine ⟨?_, node.constrained, by simp [Ssa.constrainAssertions, found], rfl, rfl⟩
  rcases Ssa.mem_arena _ (List.mem_of_getElem? found) with isBase | ⟨copying, isCopy, first, isNode⟩
  · obtain ⟨loc, found⟩ := List.mem_iff_getElem?.mp isBase
    obtain ⟨instruction, later, -, rfl⟩ := Frame.exists_of_getElem?_nodes found
    have own := frame.guard_mem_nodeAt loc instruction
    refine ⟨⟨[], rfl, ?_⟩, fun _ => .inl rfl, fun _ => own⟩
    rw [Odometer.suffixOf_nil]
    exact own
  · obtain ⟨-, -, -, enabling, suffix, -, -⟩ := series.exists_defined regular isCopy isNode
    refine ⟨⟨copying.levels, suffix, guard_mem_defined_copy regular series isCopy isNode⟩, ?_⟩
    rw [guard_mem_defined_iff_depth regular series isCopy isNode, enabling, suffix]
    constructor
    · exact fun depths => .inr ⟨copying.head, rfl, depths⟩
    · rintro (empty | ⟨head, same, depths⟩)
      · exact absurd empty (series.suffix_ne_empty isCopy)
      · have heads := (Name.enable.inj (Name.eq_of_symbol_eq (Name.isProper_of_none rfl)
          (Name.isProper_of_none rfl) (Expr.var.inj same)).1).1
        rw [heads]
        exact depths

/-- A loop inside a loop, and an assertion in the inner one. -/
def assertingInside : Procedure where
  params := [⟨"x", .int⟩]
  body := [
    .skip,
    .assert (.cmp .ge (.var ⟨"x", .int⟩) (.int 0)),
    .goto (.nondet .bool) 1,
    .goto (.nondet .bool) 0,
    .endFunction]

/-- In a copy of the outer loop, its head defines the guard it is said to have. -/
theorem Unwinds.guard_mem_defined_outer : ∃ ssa u unwound node,
    Ssa.build "f" assertingInside [] = .ok ssa ∧ Unwinds ssa [0] u unwound ∧
    unwound.nodes[5]? = some node ∧ node.guard.name = "$guard#0%1" ∧
    node.guard ∈ node.defined := by
  obtain ⟨ssa, built⟩ : ∃ ssa, Ssa.build "f" assertingInside [] = .ok ssa := ⟨_, rfl⟩
  have run : ∃ u unwound node, Unwinds ssa [0] u unwound ∧ unwound.nodes[5]? = some node ∧
      node.guard.name = "$guard#0%1" ∧ node.enabling = .var (Name.enable 0 node.suffix).bool ∧
      ssa.flow.depth node.location = ssa.flow.depth 0 := by
    cases built
    exact ⟨_, _, _, .unwound .fresh rfl, rfl, rfl, rfl, rfl⟩
  obtain ⟨u, unwound, node, run, found, guard, enabling, depths⟩ := run
  have iff := (Unwinds.guard_mem_defined_iff built run found).2.1
  exact ⟨ssa, u, unwound, node, built, run, found, guard, iff.mpr (.inr ⟨0, enabling, depths⟩)⟩

/-- In a copy of the outer loop, the assertion of the inner one becomes a constraint under a guard
that its node does not define. -/
theorem Unwinds.guard_not_mem_defined_inner : ∃ ssa u unwound node constrained,
    Ssa.build "f" assertingInside [] = .ok ssa ∧ Unwinds ssa [0] u unwound ∧
    unwound.nodes[6]? = some node ∧ node.location = 1 ∧ node.guard.name = "$guard#1%1" ∧
    node.defined.map (·.name) = ["$guard#1%1.0"] ∧ node.guard ∉ node.defined ∧
    unwound.constrainAssertions.nodes[6]? = some constrained ∧
    constrained.constraints.map Expr.text = ["($guard#1%1 => (x#in >= 0))"] := by
  obtain ⟨ssa, built⟩ : ∃ ssa, Ssa.build "f" assertingInside [] = .ok ssa := ⟨_, rfl⟩
  cases built
  refine ⟨_, _, _, _, _, rfl, .unwound .fresh rfl, rfl, rfl, ?_, ?_, ?_, rfl, ?_⟩
  all_goals decide +kernel

end TemplateAnalysis
