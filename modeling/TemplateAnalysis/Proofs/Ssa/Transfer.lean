import TemplateAnalysis.Proofs.Ssa.Models

/-! # Models follow steps

If the versions before a location have the values of a store, and the open symbols of the location
have the values that a step chooses, then the versions after the location have the values of the
store after the step, assertions have the values of what is asserted, and of the edges that leave a
reached location exactly the one that the step follows is taken.
-/

namespace TemplateAnalysis

namespace Frame

/-- The open symbols of a location, and what a call there writes, have the chosen values. -/
structure Chooses (frame : Frame) (m : Assignment) (loc : Nat) (c : Choices) : Prop where
  opened : ∀ k sort, m ((Name.nondet loc k).symbol sort) = c.opened k sort
  written : ∀ result callee arguments,
    frame.body[loc]? = some (.call result callee arguments) → ∀ object ∈ frame.objects,
      m ((Name.version object.name loc).symbol object.sort) = c.written object

namespace Proper

variable {frame : Frame} {table : SymbolTable} (proper : frame.Proper table) {m : Assignment}
  {loc : Nat} {instruction : Instruction} (here : frame.body[loc]? = some instruction)
  {store : Assignment} {c : Choices}
  (reads : ∀ object ∈ frame.objects, frame.valueBefore m loc object = store object)
  (chosen : frame.Chooses m loc c)
include proper here reads chosen

/-- What is read at a location has the value it has in the store. -/
theorem eval_readAt {e : Expr} (objects : ∀ s ∈ e.occurrences, s ∈ frame.objects) :
    (frame.readAt loc e).eval m.valuation = e.valueIn store c := by
  have inside := (List.getElem?_eq_some_iff.mp here).1
  refine Expr.eval_fillNondets_rename (fun s occurs => ?_) (fun k sort => ?_) 0
  · rw [proper.imageUnder_readBefore inside (objects s occurs)]
    exact congrArg some (reads s (objects s occurs))
  · rw [Value.eval_constant]
    exact congrArg some (chosen.opened k sort)

/-- Expressions that are read have values. -/
theorem exists_valueIn {e : Expr} (sorted : e.isWellSorted = true)
    (objects : ∀ s ∈ e.occurrences, s ∈ frame.objects) :
    ∃ x, e.valueIn store c = some x ∧ x.sort = e.sort := by
  have inside := (List.getElem?_eq_some_iff.mp here).1
  rw [← proper.eval_readAt here reads chosen objects]
  exact (proper.readAt_term inside sorted objects).eval m

theorem exists_truth {condition : Expr} (isCondition : condition.isCondition = true)
    (objects : ∀ s ∈ condition.occurrences, s ∈ frame.objects) :
    ∃ t, condition.valueIn store c = some (.bool t) := by
  obtain ⟨sorted, sort⟩ := Expr.isCondition_iff.mp isCondition
  obtain ⟨x, value, sortX⟩ := proper.exists_valueIn here reads chosen sorted objects
  rw [sort] at sortX
  cases x with
  | bool t => exact ⟨t, value⟩
  | int n => cases sortX

/-- Assertions have the values of what is asserted. -/
theorem eval_assertions : (frame.effectAt loc instruction).assertions.map (·.eval m.valuation) =
    instruction.asserted.map (·.valueIn store c) := by
  rw [(proper.effectAt_eq here).2, List.map_map]
  refine List.map_congr_left fun condition asserted => ?_
  refine proper.eval_readAt here reads chosen fun s occurs => proper.reads_mem here ?_
  cases instruction with
  | assert other => rwa [List.mem_singleton.mp asserted] at occurs
  | _ => cases asserted

variable (solves : m.Solves (frame.effectEqualities loc instruction))
include solves

private theorem holds_named {condition : Expr}
    (objects : ∀ s ∈ condition.occurrences, s ∈ frame.objects)
    (defined : ∀ e ∈ effectEqualities.branch frame loc condition,
      e ∈ frame.effectEqualities loc instruction) {t : Bool}
    (value : condition.valueIn store c = some (.bool t)) :
    m.holds (branchCondition.named loc condition) = t := by
  unfold branchCondition.named
  split
  · next constant =>
    obtain ⟨b, rfl⟩ := Expr.eq_bool_of_isConstant constant
    cases value
    exact m.holds_bool t
  · next notConstant =>
    have solved := solves _ (defined ⟨(Name.cond loc).bool, frame.readAt loc condition⟩ (by
      simp [effectEqualities.branch, notConstant]))
    rw [proper.eval_readAt here reads chosen objects, value] at solved
    have known : m (Name.cond loc).bool = .bool t := (Option.some.inj solved).symm
    cases t <;> simp [Assignment.truth, known]

/-- Of the edges that leave a reached location, exactly the one that the step follows is taken. -/
theorem takes_iff (reached : m.truth (Name.guard loc).bool = true) {next : Nat}
    (edge : next ∈ instruction.successors (frame.body.length - 1) loc) :
    frame.takes m loc next = true ↔
      instruction.next? (frame.body.length - 1) loc c store = some next := by
  have sorted := proper.wellSorted_at here
  have objects : ∀ s ∈ instruction.reads, s ∈ frame.objects := fun s => proper.reads_mem here
  rw [takes_eq here, reached, Bool.true_and]
  cases instruction with
  | goto condition target =>
    obtain ⟨t, value⟩ := proper.exists_truth here reads chosen sorted objects
    have branch := proper.holds_named here reads chosen solves objects (fun _ => id) value
    rw [Instruction.next?_goto]
    simp only [directs, branchCondition, branch, value, Option.some.injEq, Value.bool.injEq,
      exists_eq_left']
    rcases Instruction.successors_cases edge with ⟨_, same⟩ | ⟨⟨_, same⟩, -⟩ | ⟨-, ahead⟩
    · cases same
      by_cases beside : next = loc + 1 <;> cases t <;> simp [beside]
    · cases same
    · subst ahead
      by_cases beside : target = loc + 1
      · simp [beside]
      · have apart : loc + 1 ≠ target := Ne.symm beside
        cases t <;> simp [beside, apart]
  | assume condition =>
    obtain ⟨t, value⟩ := proper.exists_truth here reads chosen sorted objects
    have branch := proper.holds_named here reads chosen solves objects (fun _ => id) value
    rw [Instruction.next?_assume]
    obtain rfl := List.mem_singleton.mp edge
    simp [directs, branchCondition, branch, value]
  | endFunction => cases edge
  | other what => exact absurd here (proper.accepted.supported loc what)
  | _ =>
    obtain rfl := List.mem_singleton.mp edge
    simp [directs, Instruction.next?]

omit here reads chosen solves in
private theorem mem_globals_names {object : Symbol} (isObject : object ∈ frame.objects) :
    object.name ∈ frame.globals.map (·.name) ↔ table.isStatic object.name = true := by
  rw [proper.globals_eq]
  constructor
  · intro member
    obtain ⟨global, isGlobal, same⟩ := List.mem_map.mp member
    rw [← same]
    simpa using (List.mem_filter.mp isGlobal).2
  · intro isStatic
    exact List.mem_map_of_mem (List.mem_filter.mpr ⟨isObject, isStatic⟩)

omit reads chosen solves here in
/-- A call assigns its result and the globals. -/
private theorem call_assigns {result : Option Symbol} {callee : String} {arguments : List Expr}
    (here : frame.body[loc]? = some (.call result callee arguments)) {object : Symbol}
    (isObject : object ∈ frame.objects) :
    ((Instruction.call result callee arguments).assigns frame.globals).contains object.name =
      (decide (result = some object) || table.isStatic object.name) := by
  have isResult : object.name ∈ (result.map (·.name)).toList ↔ result = some object := by
    simp only [Option.mem_toList, Option.map_eq_some_iff]
    constructor
    · rintro ⟨target, rfl, same⟩
      rw [proper.eq_of_name_eq (proper.writes_mem here rfl) isObject same]
    · rintro rfl
      exact ⟨object, rfl, rfl⟩
  rw [Bool.eq_iff_iff, List.contains_iff_mem, Instruction.assigns, List.mem_append, isResult,
    proper.mem_globals_names isObject, Bool.or_eq_true, decide_eq_true_iff]

omit chosen solves in
/-- An object that the instruction does not assign keeps its value in the model and the store. -/
theorem valueAfter_of_not_assigned {object : Symbol} (isObject : object ∈ frame.objects)
    (kept : (instruction.assigns frame.globals).contains object.name = false) :
    frame.valueAfter m loc object = store object := by
  rw [valueAfter, proper.definitionAfter_eq here isObject, kept]
  exact reads object isObject

/-- After an instruction, the versions have the values of the store after it. -/
theorem valueAfter_eq {object : Symbol} (isObject : object ∈ frame.objects) :
    frame.valueAfter m loc object = instruction.after table c store object := by
  have kept := proper.valueAfter_of_not_assigned here reads isObject
  have changed : (instruction.assigns frame.globals).contains object.name = true →
      frame.valueAfter m loc object = m ((Name.version object.name loc).symbol object.sort) := by
    intro assigned
    rw [valueAfter, proper.definitionAfter_eq here isObject, assigned]
    rfl
  have objects : ∀ s ∈ instruction.reads, s ∈ frame.objects := fun s => proper.reads_mem here
  -- an instruction that assigns one object the value of an expression
  have single : ∀ (target : Symbol) (x : Value), target ∈ frame.objects → x.sort = target.sort →
      instruction.assigns frame.globals = [target.name] →
      m ((Name.version target.name loc).symbol target.sort) = x →
      frame.valueAfter m loc object = store.set target x object := by
    intro target x isTarget sort assigns value
    by_cases same : object.name = target.name
    · obtain rfl := proper.eq_of_name_eq isObject isTarget same
      rw [changed (by simp [assigns]), value, Assignment.set_self sort]
    · have other : object ≠ target := fun equal => same (congrArg Symbol.name equal)
      rw [kept (by simpa [assigns] using same), Assignment.set_other other]
  cases instruction with
  | decl target =>
    have value := solves _ (List.mem_singleton_self _)
    refine single target _ (proper.writes_mem here rfl) (c.opened_sort 0 target.sort) rfl ?_
    rw [← chosen.opened 0 target.sort]
    exact (Option.some.inj value).symm
  | assign target value =>
    have solved := solves _ (List.mem_singleton_self _)
    rw [proper.eval_readAt here reads chosen objects] at solved
    simp only [Instruction.after, solved, Assignment.update]
    exact single target _ (proper.writes_mem here rfl) (m.sorted _) rfl rfl
  | ret value =>
    cases value with
    | none => exact kept rfl
    | some value =>
      have solved := solves _ (List.mem_singleton_self _)
      rw [proper.eval_readAt here reads chosen objects] at solved
      simp only [Instruction.after, solved, Assignment.update]
      exact single ⟨returnValue, value.sort⟩ _ (proper.returned_mem here) (m.sorted _) rfl rfl
  | call result callee arguments =>
    have written := chosen.written result callee arguments here object isObject
    have assigned := proper.call_assigns here isObject
    simp only [Instruction.after]
    cases isChanged : decide (result = some object) || table.isStatic object.name with
    | true =>
      rw [Assignment.override_chosen isChanged, changed (assigned.trans isChanged), written]
    | false =>
      rw [Assignment.override_other isChanged, kept (assigned.trans isChanged)]
  | _ => exact kept rfl

end Proper

end Frame

end TemplateAnalysis
