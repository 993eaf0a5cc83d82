import TemplateAnalysis.Proofs.Ssa.LoopPasses
import TemplateAnalysis.Proofs.Unwinding.Guards

/-! # Copies are the passes through a loop

Unwind a loop that stands alone, and read a model of the formulas through the renaming of each copy.
This gives an assignment for each pass through the loop: the copied nodes say that the definitions
of the loop hold in it, and the copy of the head says that it continues what the copy before has
left. So the copies describe the execution from the head of the loop, pass by pass.
-/

namespace TemplateAnalysis

namespace Assignment

variable {m : Assignment}

/-- The definitions of a node that is switched on hold where its formulas are true. -/
theorem solves_of_satisfies {node : Node} (satisfies : m.Satisfies node.formulas)
    (enabled : node.enabling.eval m.valuation = some (.bool true)) : m.Solves node.equalities := by
  intro e member
  rw [← Equality.eval_formula_iff]
  refine Expr.eval_of_implies enabled (satisfies _ (List.mem_map_of_mem ?_))
  exact List.mem_append_left _ (List.mem_map_of_mem member)

/-- The values that an assignment gives to the symbols of a copy. -/
def through (m : Assignment) (copying : Copying) : Assignment where
  value s := m (copying.symbol s)
  sorted s := (m.sorted _).trans (copying.sort_symbol s)

end Assignment

namespace Copying

variable {copying : Copying} {m : Assignment}

theorem eval_expr (e : Expr) :
    (copying.expr e).eval m.valuation = e.eval (m.through copying).valuation :=
  Expr.eval_rename e

theorem solves_through {equalities : List Equality}
    (solves : m.Solves (equalities.map copying.equality)) :
    (m.through copying).Solves equalities := by
  intro e member
  rw [← eval_expr]
  exact solves _ (List.mem_map_of_mem member)

section

variable {frame : Frame} {table : SymbolTable} (proper : frame.Proper table)
  {params : List Symbol} (base : copying.ssa = frame.complete params) {first : Nat}
  (solves : ∀ node ∈ copying.nodes first, m.Solves node.equalities)
include proper base solves

/-- The definitions of the copied node of a location hold. -/
theorem solves_copied {loc : Nat} {instruction : Instruction}
    (here : frame.body[loc]? = some instruction)
    (within : frame.flow.inExtent copying.head loc = true) :
    m.Solves (if loc = copying.head then
        copying.headEqualities copying.previous ++ ((frame.equalitiesAt loc instruction).filter
          fun e => !copying.rebuilt.contains e.lhs).map copying.equality
      else (frame.equalitiesAt loc instruction).map copying.equality) := by
  obtain ⟨later, found⟩ := Frame.getElem?_nodes here params
  have within' : copying.ssa.flow.inExtent copying.head loc = true := by
    rw [base]
    exact within
  have own : frame.equalitiesAt loc instruction = (frame.nodeAt loc instruction).equalities := by
    rw [Frame.equalitiesAt, ← (proper.effectAt_eq here).1]
    rfl
  rw [← base] at found
  rw [own]
  exact solves _ (mem_nodes.mpr ⟨loc, _, found, within', rfl⟩)

omit proper base solves in
theorem selected_term (b : Nat) :
    (Expr.var (copying.symbol (loopSelect b))).TermOver (fun _ => True) .bool := by
  have term := Expr.TermOver.var (P := fun _ => True) (s := copying.symbol (loopSelect b)) trivial
  rwa [sort_symbol] at term

omit base solves in
/-- The copy of the head keeps what its instruction defines. -/
theorem not_mem_rebuilt (base : copying.ssa = frame.complete params) {instruction : Instruction}
    (here : frame.body[copying.head]? = some instruction) {e : Equality}
    (member : e ∈ frame.effectEqualities copying.head instruction) : e.lhs ∉ copying.rebuilt := by
  obtain ⟨name, defines, rank⟩ := proper.effect_defines here member
  have inside := (List.getElem?_eq_some_iff.mp here).1
  simp only [rebuilt, base, List.mem_cons, List.mem_map, not_or, not_exists, not_and]
  constructor
  · intro isGuard
    rw [defines.lhs_eq] at isGuard
    obtain ⟨rfl, -⟩ := Name.eq_of_symbol_eq defines.proper (Name.isProper_of_none rfl) isGuard
    simp only [Frame.rank] at rank
    omega
  · intro object isMerged isPhi
    have isObject := ((proper.mem_mergedObjects inside).mp isMerged).1
    have isProper : (Name.phi object.name copying.head).IsProper :=
      proper.definition_isProper isObject (.merged copying.head)
    rw [defines.lhs_eq] at isPhi
    obtain ⟨rfl, -⟩ := Name.eq_of_symbol_eq isProper defines.proper isPhi
    simp only [Frame.rank] at rank
    omega

/-- Through a copy, the definitions of a location behind the head hold. -/
theorem through_solves_equalitiesAt {loc : Nat} {instruction : Instruction}
    (here : frame.body[loc]? = some instruction)
    (within : frame.flow.inExtent copying.head loc = true) (apart : loc ≠ copying.head) :
    (m.through copying).Solves (frame.equalitiesAt loc instruction) := by
  have solved := solves_copied proper base solves here within
  rw [if_neg apart] at solved
  exact solves_through solved

/-- Through a copy, what instructions define holds. -/
theorem through_solves_effect {loc : Nat} {instruction : Instruction}
    (here : frame.body[loc]? = some instruction)
    (within : frame.flow.inExtent copying.head loc = true) :
    (m.through copying).Solves (frame.effectEqualities loc instruction) := by
  have own := frame.effectEqualities_subset loc instruction
  by_cases atHead : loc = copying.head
  · have solved := solves_copied proper base solves here within
    rw [if_pos atHead] at solved
    subst atHead
    refine solves_through fun e copied => solved e ?_
    obtain ⟨e, member, rfl⟩ := List.mem_map.mp copied
    refine List.mem_append_right _ (List.mem_map_of_mem (List.mem_filter.mpr ⟨own member, ?_⟩))
    simpa using not_mem_rebuilt proper base here member
  · intro e member
    exact through_solves_equalitiesAt proper base solves here within atHead e (own member)

variable (isHead : frame.flow.isHead copying.head = true)
include isHead

theorem solves_headEqualities : m.Solves (copying.headEqualities copying.previous) := by
  obtain ⟨low, high⟩ := proper.extentEnd_lt isHead
  have here := List.getElem?_eq_getElem (Nat.lt_of_le_of_lt low high)
  have solved := solves_copied proper base solves here (proper.inExtent_self isHead)
  rw [if_pos rfl] at solved
  exact fun e member => solved e (List.mem_append_left _ member)

/-- In a copy, a back edge counts as selected if the copy before takes it. -/
theorem truth_loopSelect {b : Nat} (isBack : b ∈ frame.flow.backEdges copying.head) :
    (m.through copying).truth (loopSelect b) =
      frame.takes (m.through copying.previous) b copying.head := by
  have solved := solves_headEqualities proper base solves isHead
    ⟨copying.symbol (loopSelect b), copying.previous.expr (frame.edgeGuard b copying.head)⟩ (by
      simp only [headEqualities, base]
      exact List.mem_append_left _ (List.mem_flatMap.mpr ⟨b, isBack, List.mem_cons_self⟩))
  rw [eval_expr] at solved
  rw [Frame.takes, Assignment.holds, solved]
  rfl

/-- In a copy, what the copy before has left arrives over the back edges. -/
theorem value_loopBack {b : Nat} (isBack : b ∈ frame.flow.backEdges copying.head)
    {object : Symbol} (isMerged : object ∈ frame.mergedObjects copying.head) :
    m.through copying (loopBack object b) =
      frame.valueAfter (m.through copying.previous) b object := by
  have edge := (proper.mem_backEdges.mp isBack).1
  have isObject := ((proper.mem_mergedObjects (proper.accepted.edge_lt edge)).mp isMerged).1
  have read := proper.readAfter?_eq (Accepted.source_lt edge) isObject
  have solved := solves_headEqualities proper base solves isHead
    ⟨copying.symbol (loopBack object b),
      .var (copying.previous.symbol ((frame.definitionAfter b object).version object))⟩ (by
      simp only [headEqualities, base]
      refine List.mem_append_left _ (List.mem_flatMap.mpr ⟨b, isBack, List.mem_cons_of_mem _ ?_⟩)
      exact List.mem_filterMap.mpr ⟨object, isMerged, Option.map_eq_some_iff.mpr ⟨_, read, rfl⟩⟩)
  exact (Option.some.inj solved).symm

/-- In a copy, the head is reached if the copy before takes a back edge. -/
theorem truth_guard_head : (m.through copying).truth (Name.guard copying.head).bool =
    (frame.flow.backEdges copying.head).any fun b =>
      frame.takes (m.through copying.previous) b copying.head := by
  have solved := solves_headEqualities proper base solves isHead
    ⟨copying.symbol (Name.guard copying.head).bool, Expr.disj
      ((frame.flow.backEdges copying.head).map fun b => .var (copying.symbol (loopSelect b)))⟩ (by
      simp only [headEqualities, base]
      exact List.mem_append_right _ List.mem_cons_self)
  have value : (m.through copying).truth (Name.guard copying.head).bool = m.holds (Expr.disj
      ((frame.flow.backEdges copying.head).map fun b => .var (copying.symbol (loopSelect b)))) := by
    rw [Assignment.holds, solved]
    rfl
  have terms : ∀ e ∈ (frame.flow.backEdges copying.head).map fun b =>
      Expr.var (copying.symbol (loopSelect b)), e.TermOver (fun _ => True) .bool := by
    rw [List.forall_mem_map]
    exact fun b _ => selected_term b
  rw [Bool.eq_iff_iff, value, m.holds_disj terms, List.any_map, List.any_eq_true,
    List.any_eq_true]
  refine exists_congr fun b => and_congr_right fun isBack => ?_
  rw [← truth_loopSelect proper base solves isHead isBack]
  rfl

/-- In a copy, a merged object is what arrives over the first selected back edge. -/
theorem value_phi {earlier later : List Nat} {b : Nat}
    (backs : frame.flow.backEdges copying.head = earlier ++ b :: later)
    (skipped : ∀ a ∈ earlier, (m.through copying).truth (loopSelect a) = false)
    (selected : (m.through copying).truth (loopSelect b) = true) {object : Symbol}
    (isMerged : object ∈ frame.mergedObjects copying.head) :
    m.through copying (phi object copying.head) = m.through copying (loopBack object b) := by
  let alternative : Nat → Expr × Expr := fun b =>
    (.var (copying.symbol (loopSelect b)), .var (copying.symbol (loopBack object b)))
  have nonempty : (frame.flow.backEdges copying.head).map alternative ≠ [] := by simp [backs]
  obtain ⟨chosen, chooses⟩ := Frame.exists_chooseFirst nonempty
  have solved := solves_headEqualities proper base solves isHead
    ⟨copying.symbol (phi object copying.head), chosen⟩ (by
      simp only [headEqualities, base]
      refine List.mem_append_right _ (List.mem_cons_of_mem _ ?_)
      exact List.mem_filterMap.mpr
        ⟨object, isMerged, Option.map_eq_some_iff.mpr ⟨chosen, chooses, rfl⟩⟩)
  have terms : ∀ a ∈ (frame.flow.backEdges copying.head).map alternative,
      a.1.TermOver (fun _ => True) .bool := by
    rw [List.forall_mem_map]
    exact fun c _ => selected_term c
  rw [backs, List.map_append, List.map_cons] at chooses terms
  have value := Frame.eval_chooseFirst (m := m) chooses terms ?_ selected
  · rw [value] at solved
    exact (Option.some.inj solved).symm
  · rw [List.forall_mem_map]
    exact skipped

end

/-- A counter that is zero renames nothing. -/
theorem symbol_zero (ssa : Ssa) (head : Nat) (s : Symbol) : symbol ⟨ssa, head, [0]⟩ s = s := by
  unfold symbol
  split
  · rfl
  · next loc _ =>
    refine (congrArg s.unwound (Odometer.suffixOf_of_zeros ?_ _)).trans s.unwound_empty
    intro level member
    split at member
    · exact List.mem_singleton.mp member
    · exact List.mem_singleton.mp (List.mem_of_mem_take member)

theorem through_zero (ssa : Ssa) (head : Nat) (m : Assignment) : m.through ⟨ssa, head, [0]⟩ = m :=
  Assignment.ext fun s => congrArg m (symbol_zero ssa head s)

/-- The copies of an outermost loop share what is introduced outside of it. -/
theorem symbol_of_outside (single : copying.levels.length = 1) {s : Symbol}
    (outside : ∀ loc, copying.ssa.definedAt? s = some loc →
      copying.ssa.flow.inExtent copying.head loc = false) : copying.symbol s = s := by
  cases found : copying.ssa.definedAt? s with
  | none => simp [symbol, found]
  | some loc => simp [symbol, found, outside loc found, single]

end Copying

namespace Frame.Proper

variable {frame : Frame} {table : SymbolTable} (proper : frame.Proper table)
  {params : List Symbol} {head : Nat}
include proper

/-- The copies of a loop share the versions before it that are not merged at its head. -/
theorem symbol_version (inside : head < frame.body.length) {object : Symbol}
    (isObject : object ∈ frame.objects)
    (notMerged : frame.definitionBefore head object ≠ .merged head) (pass : Nat) :
    Copying.symbol ⟨frame.complete params, head, [pass]⟩
        ((frame.definitionBefore head object).version object) =
      (frame.definitionBefore head object).version object := by
  have rank := proper.rank_definitionBefore_lt inside isObject notMerged
  refine Copying.symbol_of_outside rfl fun loc defined => ?_
  rw [Definition.version_eq] at defined
  generalize frame.definitionBefore head object = d at rank defined
  have before : loc < head := by
    cases d with
    | input => cases proper.home_of_definedAt? (.input object.name) rfl defined
    | assigned p =>
      have home := proper.home_of_definedAt? (.version object.name p) rfl defined
      obtain rfl := Option.some.inj home
      simp only [Definition.name, Frame.rank] at rank
      omega
    | merged p =>
      have home := proper.home_of_definedAt? (.phi object.name p) rfl defined
      obtain rfl := Option.some.inj home
      simp only [Definition.name, Frame.rank] at rank
      omega
  rw [Bool.eq_false_iff]
  intro within
  have after := (Flow.inExtent_iff.mp within).1
  exact absurd before (Nat.not_lt.mpr after)

/-- A model, read through the copies of a loop, continues from each pass to the next. -/
theorem continues_of_solves (isHead : frame.flow.isHead head = true) {m : Assignment}
    (solves : m.Solves frame.equalities) {last : Nat}
    (copied : ∀ pass < last, ∃ first,
      ∀ node ∈ Copying.nodes ⟨frame.complete params, head, [pass + 1]⟩ first,
        m.Solves node.equalities) :
    frame.Continues head (fun pass => m.through ⟨frame.complete params, head, [pass]⟩) last := by
  have bounds := proper.extentEnd_lt isHead
  have inside := Nat.lt_of_le_of_lt bounds.1 bounds.2
  refine ⟨?_, ?_, ?_, ?_, ?_⟩
  · intro pass le loc behind upTo
    cases pass with
    | zero =>
      rw [Copying.through_zero]
      exact solves_arrival solves (Nat.lt_of_le_of_lt upTo bounds.2)
    | succ pass =>
      obtain ⟨first, holds⟩ := copied pass le
      have here := List.getElem?_eq_getElem (Nat.lt_of_le_of_lt upTo bounds.2)
      have within := Flow.inExtent_iff.mpr ⟨Nat.le_of_lt behind, upTo⟩
      have solved := Copying.through_solves_equalitiesAt proper rfl holds here within
        (Nat.ne_of_gt behind)
      exact fun e member => solved e (arrivalEqualities_subset loc _ member)
  · intro pass le loc instruction after upTo here
    cases pass with
    | zero =>
      rw [Copying.through_zero]
      exact solves_effect solves here
    | succ pass =>
      obtain ⟨first, holds⟩ := copied pass le
      exact Copying.through_solves_effect proper rfl holds here
        (Flow.inExtent_iff.mpr ⟨after, upTo⟩)
  · intro pass lt
    obtain ⟨first, holds⟩ := copied pass lt
    exact Copying.truth_guard_head proper rfl holds isHead
  · intro pass lt earlier b later backs skipped taken object isMerged
    obtain ⟨first, holds⟩ := copied pass lt
    have select : ∀ a ∈ frame.flow.backEdges head,
        (m.through ⟨frame.complete params, head, [pass + 1]⟩).truth (loopSelect a) =
          frame.takes (m.through ⟨frame.complete params, head, [pass]⟩) a head :=
      fun a isBack => Copying.truth_loopSelect proper rfl holds isHead isBack
    have isBack : b ∈ frame.flow.backEdges head := by simp [backs]
    have value := Copying.value_phi proper rfl holds isHead backs ?_ ((select b isBack).trans taken)
      isMerged
    · rw [valueBefore, ((proper.mem_mergedObjects inside).mp isMerged).2]
      exact value.trans (Copying.value_loopBack proper rfl holds isHead isBack isMerged)
    · intro a isEarlier
      have isBack : a ∈ frame.flow.backEdges head := by
        rw [backs]
        exact List.mem_append_left _ isEarlier
      exact (select a isBack).trans (skipped a isEarlier)
  · intro pass le object isObject notMerged
    change m (Copying.symbol _ _) = m (Copying.symbol _ _)
    rw [proper.symbol_version inside isObject notMerged,
      proper.symbol_version inside isObject notMerged]

end Frame.Proper

/-- A head is never refused. -/
theorem Unwinder.not_isHead_of_refused {u : Unwinder} {ssa : Ssa} {head : Nat}
    (refusal : u.unwind ssa head = .error (.notALoopHead head)) : ssa.flow.isHead head = false := by
  rw [Bool.eq_false_iff]
  intro isHead
  simp only [Unwinder.unwind, Flow.extent?, isHead, if_true] at refusal
  split at refusal <;> cases refusal

/-- An outermost loop has been unwound as often as this was called for. -/
theorem Unwinds.count_eq {table : SymbolTable} {frame : Frame} (regular : frame.Regular table)
    {params : List Symbol} {head : Nat} (outermost : frame.flow.enclosing head = [head])
    {heads : List Nat} {u : Unwinder} {ssa : Ssa}
    (run : Unwinds (frame.complete params) heads u ssa) :
    Unwinder.count u.counts head [] = heads.count head := by
  induction run with
  | fresh => rfl
  | @unwound heads u u' ssa ssa' next literal run made ih =>
    obtain ⟨settled, -, rfl⟩ := run.extends regular
    have isNext : frame.flow.isHead next = true := Unwinder.isHead_of_unwind made
    obtain ⟨front, chain⟩ := regular.enclosing_concat isNext
    obtain ⟨outer, level, isOuter, isLevel, rfl, -⟩ := settled.unwind chain made
    rw [Unwinder.count_cons, List.count_append, List.count_singleton, ← ih]
    by_cases same : next = head
    · subst same
      obtain rfl : front = [] := by simpa [outermost] using chain
      obtain rfl : outer = [] := isOuter
      simp [isLevel]
    · simp [same, Ne.symm same]
  | @refused heads u ssa next run refusal ih =>
    obtain ⟨-, -, rfl⟩ := run.extends regular
    have apart : next ≠ head := by
      rintro rfl
      have isHead := (regular.mem_enclosing.mp (outermost ▸ List.mem_singleton_self next)).1
      have refused : frame.flow.isHead next = false := Unwinder.not_isHead_of_refused refusal
      rw [isHead] at refused
      cases refused
    simpa [apart] using ih

/-- The copies that have been called for are there. -/
theorem Unwinds.mem_copies {table : SymbolTable} {frame : Frame} (regular : frame.Regular table)
    {params : List Symbol} {head : Nat} (outermost : frame.flow.enclosing head = [head])
    {heads : List Nat} {u : Unwinder} {ssa : Ssa}
    (run : Unwinds (frame.complete params) heads u ssa) {pass : Nat}
    (lt : pass < heads.count head) :
    ⟨frame.complete params, head, [pass + 1]⟩ ∈ u.copies (frame.complete params) := by
  obtain ⟨-, recorded, -⟩ := run.extends regular
  rw [← run.count_eq regular outermost] at lt
  have entry := recorded.mem_iff.mpr ⟨Nat.succ_pos pass, lt⟩
  exact Unwinder.mem_copies.mpr ⟨head, [], pass + 1, entry, rfl⟩

/-- In a model in which the copies are switched on, all definitions hold. -/
theorem Frame.Proper.solves_of_satisfies_extended {frame : Frame} {table : SymbolTable}
    (proper : frame.Proper table) {params : List Symbol} {copies : List Copying} {m : Assignment}
    (satisfies : m.Satisfies ((frame.complete params).extended copies).formulas)
    (enabled : ∀ literal ∈ ((frame.complete params).extended copies).enabling,
      m literal = .bool true) :
    m.Solves frame.equalities ∧ ∀ copying ∈ copies, ∃ first, ∀ node ∈ copying.nodes first,
      node ∈ (frame.complete params).arena copies ∧ m.Solves node.equalities := by
  have nodes : ∀ node ∈ (frame.complete params).arena copies, m.Satisfies node.formulas :=
    fun node member formula isFormula =>
      satisfies formula (List.mem_flatMap.mpr ⟨node, member, isFormula⟩)
  constructor
  · rw [← proper.satisfies_iff params]
    intro formula member
    obtain ⟨node, isNode, isFormula⟩ := List.mem_flatMap.mp member
    have isPrefix := (frame.complete params).nodes_isPrefix_arena copies
    exact nodes node (isPrefix.subset isNode) formula isFormula
  · intro copying isCopy
    obtain ⟨first, subset⟩ := (frame.complete params).exists_nodes_subset_arena isCopy
    refine ⟨first, fun node isNode => ⟨subset node isNode, ?_⟩⟩
    refine Assignment.solves_of_satisfies (nodes node (subset node isNode)) ?_
    obtain ⟨loc, origin, -, -, rfl⟩ := Copying.mem_nodes.mp isNode
    have literal : copying.literal ∈ ((frame.complete params).extended copies).enabling :=
      List.mem_append_right _ (List.mem_map_of_mem isCopy)
    exact congrArg some (enabled _ literal)

/-- For each pass there is a node of the location that defines the copy of its guard. -/
theorem Ssa.Series.exists_node {table : SymbolTable} {frame : Frame}
    (regular : frame.Regular table) {params : List Symbol} {copies : List Copying}
    (series : (frame.complete params).Series copies) {head loc : Nat}
    (alone : frame.flow.StandsAlone head) (within : frame.flow.inExtent head loc = true)
    {pass : Nat} (made : 0 < pass → ⟨frame.complete params, head, [pass]⟩ ∈ copies) :
    ∃ node ∈ (frame.complete params).arena copies, node.location = loc ∧
      node.suffix = Odometer.suffixOf [pass] 1 ∧ node.guard ∈ node.defined ∧
      node.guard = Copying.symbol ⟨frame.complete params, head, [pass]⟩ (Name.guard loc).bool := by
  have depth : ∀ {loc}, frame.flow.inExtent head loc = true → frame.flow.depth loc = 1 :=
    fun inLoop => congrArg List.length (regular.enclosing_of_standsAlone alone inLoop)
  have bounds := regular.extentEnd_lt alone.isHead
  have upTo := (Flow.inExtent_iff.mp within).2
  obtain ⟨instruction, here⟩ : ∃ instruction, frame.body[loc]? = some instruction :=
    ⟨_, List.getElem?_eq_getElem (Nat.lt_of_le_of_lt upTo bounds.2)⟩
  obtain ⟨later, found⟩ := Frame.getElem?_nodes here params
  cases pass with
  | zero =>
    have isNode := ((frame.complete params).nodes_isPrefix_arena copies).subset
      (List.mem_of_getElem? found)
    refine ⟨_, isNode, rfl, rfl, ?_, ?_⟩
    · exact frame.guard_mem_nodeAt loc instruction
    · rw [Copying.symbol_zero]
      rfl
  | succ pass =>
    have isCopy := made (Nat.succ_pos pass)
    obtain ⟨first, subset⟩ := (frame.complete params).exists_nodes_subset_arena isCopy
    have isNode : Copying.node ⟨frame.complete params, head, [pass + 1]⟩ _ _ first _ ∈
        Copying.nodes ⟨frame.complete params, head, [pass + 1]⟩ first :=
      Copying.mem_nodes.mpr ⟨loc, _, found, within, rfl⟩
    refine ⟨_, subset _ isNode, rfl, rfl, ?_, ?_⟩
    · rw [guard_mem_defined_iff_depth regular series isCopy isNode]
      exact (depth within).trans (depth (regular.inExtent_self alone.isHead)).symm
    · have copied : (Name.guard loc).bool ∈
          Copying.defined ⟨frame.complete params, head, [pass + 1]⟩ loc instruction :=
        guard_mem_copied rfl loc instruction
      have introduced := Copying.mem_introduced_of_mem_defined rfl alone.isHead copied
      rw [Copying.symbol_of_mem_introduced regular rfl here within introduced, depth within]
      rfl

/-- The execution from the head of a loop that makes in each pass the choices of the copy of this
pass. -/
def Assignment.PassesThrough (m : Assignment) (ssa : Ssa) (procedure : Procedure)
    (table : SymbolTable) (head : Nat) (start : Assignment) : Nat → Configuration → Prop :=
  Passes procedure.body table head
    (fun pass => (m.through ⟨ssa, head, [pass]⟩).choicesAt) start

/-- The form after unwinding describes what an execution does at a location in one pass through a
loop. -/
structure Ssa.DescribesPass (ssa unwound : Ssa) (procedure : Procedure) (table : SymbolTable)
    (m : Assignment) (head : Nat) (start : Assignment) (pass loc : Nat) : Prop where
  /-- the guard that the copy of the location defines says whether the pass reaches it -/
  reached : ∃ node ∈ unwound.nodes, node.location = loc ∧
    node.suffix = Odometer.suffixOf [pass] 1 ∧ node.guard ∈ node.defined ∧
    (m node.guard = .bool true ↔ m (Name.guard head).bool = .bool true ∧
      ∃ store, m.PassesThrough ssa procedure table head start pass ⟨loc, store⟩)
  /-- the copies of the versions before the location have the values of the store there -/
  before : m (Name.guard head).bool = .bool true → ∀ store,
    m.PassesThrough ssa procedure table head start pass ⟨loc, store⟩ →
    ∀ object ∈ procedure.symbols table, ∃ version, ssa.readBefore? object.name loc = some version ∧
      m (Copying.symbol ⟨ssa, head, [pass]⟩ version) = store object
  /-- the copies of the versions after the location have the values of the store after its
  instruction -/
  after : m (Name.guard head).bool = .bool true → ∀ store,
    m.PassesThrough ssa procedure table head start pass ⟨loc, store⟩ →
    ∃ instruction, procedure.body[loc]? = some instruction ∧
      ∀ object ∈ procedure.symbols table, ∃ version, ssa.readAfter? object.name loc = some version ∧
        m (Copying.symbol ⟨ssa, head, [pass]⟩ version) = instruction.after table
          ((m.through ⟨ssa, head, [pass]⟩).choicesAt loc) store object

/-- If a loop that stands alone has been unwound, in between others or not, then in every model in
which the copies are switched on, they are the successive passes of the execution that starts at the
head of the loop with the values that the model gives to the versions there. -/
theorem Unwinds.describesPass {function : String} {procedure : Procedure} {table : SymbolTable}
    {ssa unwound : Ssa} (built : Ssa.build function procedure table = .ok ssa)
    (wellFormed : procedure.WellFormed table) {heads : List Nat} {u : Unwinder}
    (run : Unwinds ssa heads u unwound) {head : Nat} (alone : ssa.flow.StandsAlone head)
    {m : Assignment} (satisfies : m.Satisfies unwound.formulas)
    (enabled : ∀ literal ∈ unwound.enabling, m literal = .bool true) {start : Assignment}
    (starts : ∀ object ∈ procedure.symbols table, ∃ version,
      ssa.readBefore? object.name head = some version ∧ m version = start object)
    {pass loc : Nat} (le : pass ≤ heads.count head)
    (within : ssa.flow.inExtent head loc = true) :
    ssa.DescribesPass unwound procedure table m head start pass loc := by
  obtain ⟨frame, isFrame, rfl⟩ := Ssa.frame_of_build built
  obtain ⟨proper, body, objects⟩ := Frame.proper_of_build isFrame wellFormed
  have regular := proper.toRegular
  have isObject : ∀ object ∈ procedure.symbols table, object ∈ frame.objects := by
    intro object isSymbol
    rw [objects]
    exact wellFormed.mem_objectsOf.mpr isSymbol
  have isAlone : frame.flow.StandsAlone head := alone
  have bounds := regular.extentEnd_lt isAlone.isHead
  have outermost : frame.flow.enclosing head = [head] :=
    regular.enclosing_of_standsAlone isAlone (regular.inExtent_self isAlone.isHead)
  have isCopy : ∀ pass < heads.count head,
      ⟨frame.complete procedure.params, head, [pass + 1]⟩ ∈
        u.copies (frame.complete procedure.params) :=
    fun pass lt => run.mem_copies regular outermost lt
  obtain ⟨-, recorded, rfl⟩ := run.extends regular
  have series := recorded.series fun _ isHead => regular.enclosing_concat isHead
  obtain ⟨solves, copied⟩ := proper.solves_of_satisfies_extended satisfies enabled
  have continues := proper.continues_of_solves isAlone.isHead solves fun pass lt => by
    obtain ⟨first, holds⟩ := copied _ (isCopy pass lt)
    exact ⟨first, fun node isNode => (holds node isNode).2⟩
  have reads : ∀ object ∈ frame.objects, frame.valueBefore
      (m.through ⟨frame.complete procedure.params, head, [0]⟩) head object = start object := by
    intro object member
    rw [objects] at member
    obtain ⟨version, read, value⟩ := starts object (wellFormed.mem_objectsOf.mp member)
    rw [← objects] at member
    have same := regular.readBefore?_eq (Nat.lt_of_le_of_lt bounds.1 bounds.2) member
    rw [Copying.through_zero, Frame.valueBefore, ← value, ← Option.some.inj (same.symm.trans read)]
  have inPass : m (Name.guard head).bool = .bool true → ∀ {store},
      m.PassesThrough (frame.complete procedure.params) procedure table head start pass
        ⟨loc, store⟩ →
      frame.InPass head (m.through ⟨frame.complete procedure.params, head, [0]⟩)
        (m.through ⟨frame.complete procedure.params, head, [pass]⟩) ⟨loc, store⟩ := by
    intro guard store passes
    rw [Assignment.PassesThrough, ← body] at passes
    have reached : (m.through ⟨frame.complete procedure.params, head, [0]⟩).truth
        (Name.guard head).bool = true := by
      rw [Copying.through_zero]
      exact m.truth_iff.mpr guard
    rcases proper.inPass_of_passes isAlone continues reads reached le passes with inPass | behind
    · exact inPass
    · have upTo := (Flow.inExtent_iff.mp within).2
      exact absurd behind (Nat.not_lt.mpr upTo)
  refine ⟨?_, ?_, ?_⟩
  · have made : 0 < pass → ⟨frame.complete procedure.params, head, [pass]⟩ ∈
        u.copies (frame.complete procedure.params) := by
      intro positive
      obtain ⟨before, rfl⟩ := Nat.exists_eq_succ_of_ne_zero (Nat.ne_of_gt positive)
      exact isCopy before le
    obtain ⟨node, isNode, location, suffix, defines, guard⟩ :=
      series.exists_node regular isAlone within made
    refine ⟨node, isNode, location, suffix, defines, ?_⟩
    rw [guard]
    constructor
    · intro isTrue
      have reached := proper.exists_passes_of_guard isAlone continues reads le within
        (Assignment.truth_iff _ |>.mpr isTrue)
      rw [Copying.through_zero, m.truth_iff, body] at reached
      exact reached
    · rintro ⟨atHead, store, passes⟩
      exact (Assignment.truth_iff _).mp (inPass atHead passes).reached
  · intro atHead store passes object isSymbol
    have arrives := inPass atHead passes
    exact ⟨_, regular.readBefore?_eq arrives.inside (isObject object isSymbol),
      arrives.reads object (isObject object isSymbol)⟩
  · intro atHead store passes
    have arrives := inPass atHead passes
    obtain ⟨instruction, here⟩ : ∃ instruction, frame.body[loc]? = some instruction :=
      ⟨_, List.getElem?_eq_getElem arrives.inside⟩
    refine ⟨instruction, body ▸ here, fun object isSymbol => ?_⟩
    have value := proper.valueAfter_eq here arrives.reads (Frame.Proper.chooses_choicesAt loc)
      (arrives.performs _ here) (isObject object isSymbol)
    exact ⟨_, regular.readAfter?_eq arrives.inside (isObject object isSymbol), value⟩

/-- A loop with two back edges, each behind an increment. -/
def climbing : Procedure where
  params := [⟨"x", .int⟩]
  body := [
    .assign ⟨"x", .int⟩ (.arith .add (.var ⟨"x", .int⟩) (.int 1)),
    .goto (.nondet .bool) 0,
    .assign ⟨"x", .int⟩ (.arith .add (.var ⟨"x", .int⟩) (.int 2)),
    .goto (.nondet .bool) 0,
    .endFunction]

/-- A model of the loop unwound twice: the first pass returns over the first back edge, the second
one over the second, and the third one leaves the loop. -/
def climbed : Assignment where
  value s :=
    match s.sort with
    | .bool => .bool (["$guard#0", "$guard#1", "$cond#1", "$nondet#1.0", "$enable#0%1",
        "$guard#ls1%1", "$guard#0%1", "$guard#1%1", "$guard#2%1", "$guard#3%1", "$cond#3%1",
        "$nondet#3.0%1", "$enable#0%2", "$guard#ls3%2", "$guard#0%2", "$guard#1%2", "$guard#2%2",
        "$guard#3%2"].contains s.name)
    | .int => .int (([("x#0", 1), ("x#2", 3), ("x#lb1%1", 1), ("x#lb3%1", 3), ("x#phi0%1", 1),
        ("x#0%1", 2), ("x#2%1", 4), ("x#lb1%2", 2), ("x#lb3%2", 4), ("x#phi0%2", 4), ("x#0%2", 5),
        ("x#2%2", 7)] : List (String × Int64)).lookup s.name |>.getD 0)
  sorted s := by
    cases sort : s.sort <;> rfl

/-- In the third pass, the model reaches the second back edge with the sum of all increments. -/
theorem Unwinds.describesPass_climbing : ∃ ssa u unwound,
    Ssa.build "climb" climbing [] = .ok ssa ∧ climbing.WellFormed [] ∧
    Unwinds ssa [0, 0] u unwound ∧ ssa.flow.StandsAlone 0 ∧
    climbed.Satisfies unwound.formulas ∧
    (∀ literal ∈ unwound.enabling, climbed literal = .bool true) ∧
    ssa.DescribesPass unwound climbing [] climbed 0 default 2 3 ∧
    ∃ store, climbed.PassesThrough ssa climbing [] 0 default 2 ⟨3, store⟩ ∧
      store ⟨"x", .int⟩ = .int 7 := by
  have wellFormed : climbing.WellFormed [] := by
    refine ⟨?_, ?_, ?_⟩ <;> decide
  obtain ⟨ssa, built⟩ : ∃ ssa, Ssa.build "climb" climbing [] = .ok ssa := ⟨_, rfl⟩
  have alone : ssa.flow.StandsAlone 0 := by
    have heads : ∀ other, ssa.flow.isHead other = true → other = 0 := by
      have loops : ssa.flow.loops = [⟨0, 1⟩, ⟨0, 3⟩] := by
        cases built
        rfl
      intro other isHead
      rw [Flow.isHead, loops] at isHead
      have same : 0 = other := by simpa using isHead
      exact same.symm
    refine ⟨?_, fun other isHead _ => heads other isHead, fun other isHead _ => heads other isHead⟩
    cases built
    rfl
  have run : ∃ u unwound, Unwinds ssa [0, 0] u unwound ∧ climbed.Satisfies unwound.formulas ∧
      (∀ literal ∈ unwound.enabling, climbed literal = .bool true) := by
    cases built
    refine ⟨_, _, .unwound (.unwound .fresh rfl) rfl, ?_, ?_⟩
    · unfold Assignment.Satisfies
      decide +kernel
    · decide +kernel
  obtain ⟨u, unwound, run, satisfies, enabled⟩ := run
  have starts : ∀ object ∈ climbing.symbols [], ∃ version,
      ssa.readBefore? object.name 0 = some version ∧
        climbed version = (default : Assignment) object := by
    have values : ∀ object ∈ climbing.symbols [],
        (ssa.readBefore? object.name 0).map climbed.value =
          some ((default : Assignment) object) := by
      cases built
      decide
    exact fun object isSymbol => Option.map_eq_some_iff.mp (values object isSymbol)
  have copy : ssa.flow.inExtent 0 3 = true ∧ ssa.readBefore? "x" 3 = some ⟨"x#2", .int⟩ ∧
      Copying.symbol ⟨ssa, 0, [2]⟩ ⟨"x#2", .int⟩ = ⟨"x#2%2", .int⟩ := by
    cases built
    exact ⟨by decide, by decide, by decide +kernel⟩
  obtain ⟨within, reads, renamed⟩ := copy
  have describes : ssa.DescribesPass unwound climbing [] climbed 0 default 2 3 :=
    Unwinds.describesPass built wellFormed run alone satisfies enabled starts (by decide) within
  obtain ⟨node, -, location, suffix, -, reached⟩ := describes.reached
  have guard : climbed node.guard = .bool true := by
    rw [Node.guard, location, suffix]
    decide
  obtain ⟨atHead, store, passes⟩ := reached.mp guard
  obtain ⟨version, read, value⟩ := describes.before atHead store passes ⟨"x", .int⟩ (by decide)
  refine ⟨ssa, u, unwound, built, wellFormed, run, alone, satisfies, enabled, describes, store,
    passes, ?_⟩
  rw [reads] at read
  rw [← value, ← Option.some.inj read, renamed]
  decide

end TemplateAnalysis
