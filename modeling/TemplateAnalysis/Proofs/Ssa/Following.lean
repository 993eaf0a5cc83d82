import TemplateAnalysis.Proofs.Ssa.Advancing

/-! # Models along an execution

A model follows an execution at a configuration if it arrives there, and the same is kept in mind
for the heads of the loops around the location, as far as their loops assign nothing. One step
of the execution is followed by changing free symbols from the location on: forward, by choosing the
open values of the step, and over a back edge, by choosing what arrives at the head.
-/

namespace TemplateAnalysis

namespace Assignment

/-- The assignment of free symbols: the choices of a step at every location, the back edges that are
selected and what arrives over them. -/
noncomputable def ofChoices (c : Choices) (selects : Nat → Bool) (arriving : Nat → Assignment) :
    Assignment :=
  ofNames fun name sort =>
    match name with
    | .nondet _ k => c.opened k sort
    | .version object _ => c.written ⟨object, sort⟩
    | .loopSelect b => .bool (selects b)
    | .loopBack object b => arriving b ⟨object, sort⟩
    | _ => sort.default

section OfChoices

variable (c : Choices) (selects : Nat → Bool) (arriving : Nat → Assignment)

theorem ofChoices_nondet (loc k : Nat) (sort : ValueSort) :
    ofChoices c selects arriving ((Name.nondet loc k).symbol sort) = c.opened k sort :=
  ofNames_symbol nofun (c.opened_sort k sort)

theorem ofChoices_version {object : Symbol} {loc : Nat}
    (isProper : (Name.version object.name loc).IsProper) :
    ofChoices c selects arriving ((Name.version object.name loc).symbol object.sort) =
      c.written object :=
  ofNames_symbol isProper (c.written.sorted object)

theorem ofChoices_loopSelect (b : Nat) :
    ofChoices c selects arriving (loopSelect b) = .bool (selects b) :=
  ofNames_symbol nofun rfl

theorem ofChoices_loopBack {object : Symbol} {b : Nat}
    (isProper : (Name.loopBack object.name b).IsProper) :
    ofChoices c selects arriving (loopBack object b) = arriving b object :=
  ofNames_symbol isProper ((arriving b).sorted object)

end OfChoices

end Assignment

namespace Frame

variable {frame : Frame} {table : SymbolTable}

/-- The head of a loop around a location: nothing led past it, and what its loops do not assign has
there the value it has now. -/
structure Encloses (frame : Frame) (m : Assignment) (store : Assignment) (head : Nat) : Prop where
  notSkipped : frame.NotSkipped m 0 head
  kept : ∀ object ∈ frame.objects, object.name ∉ frame.loopAssigned head →
    frame.valueBefore m head object = store object

/-- A model that follows an execution at a configuration. -/
structure Follows (frame : Frame) (m : Assignment) (configuration : Configuration) : Prop
    extends frame.Arrives 0 m configuration where
  solves : m.Solves frame.equalities
  heads : ∀ head, frame.flow.isHead head = true → head < configuration.loc →
    configuration.loc ≤ frame.flow.extentEnd head → frame.Encloses m configuration.store head

/-- From a configuration on, a model that follows it arrives wherever it selects no back edge. -/
theorem Follows.onward {m : Assignment} {configuration : Configuration}
    (follows : frame.Follows m configuration)
    (noBack : ∀ head, configuration.loc < head → ∀ b ∈ frame.flow.backEdges head,
      m.truth (loopSelect b) = false) {high : Nat} (inside : high < frame.body.length) :
    frame.Onward m 0 configuration.loc high where
  arrival _ _ le := solves_arrival follows.solves (Nat.lt_of_le_of_lt le inside)
  performs _ _ _ _ := solves_effect follows.solves
  noBack loc after _ := noBack loc after
  entered _ _ _ _ _ := Nat.zero_le _

/-- The location itself counts among the heads around it. -/
theorem Follows.encloses {m : Assignment} {configuration : Configuration}
    (follows : frame.Follows m configuration) {head : Nat}
    (isHead : frame.flow.isHead head = true) (le : head ≤ configuration.loc)
    (within : configuration.loc ≤ frame.flow.extentEnd head) :
    frame.Encloses m configuration.store head := by
  rcases Nat.lt_or_eq_of_le le with before | rfl
  · exact follows.heads head isHead before within
  · exact ⟨follows.notSkipped, fun object isObject _ => follows.reads object isObject⟩

/-- What is known about a head does not change with symbols of later locations. -/
theorem NotSkipped.of_agree {m n : Assignment} {low loc bound : Nat} (le : 2 * loc < bound)
    (agree : frame.AgreeBelow bound m n) (notSkipped : frame.NotSkipped m low loc) :
    frame.NotSkipped n low loc := by
  intro source target edge above before after
  rw [agree.takes_eq edge (by omega)]
  exact notSkipped source target edge above before after

namespace Proper

variable (proper : frame.Proper table)
include proper

theorem valueBefore_of_agree {m n : Assignment} {loc bound : Nat} {object : Symbol}
    (isObject : object ∈ frame.objects) (agree : frame.AgreeBelow bound m n)
    (below : frame.rank ((frame.definitionBefore loc object).name object) < bound) :
    frame.valueBefore n loc object = frame.valueBefore m loc object := by
  rw [valueBefore, valueBefore, Definition.version_eq]
  exact agree _ _ (proper.definition_isProper isObject _) below

theorem encloses_of_agree {m n : Assignment} {store : Assignment} {head bound : Nat}
    (inside : head < frame.body.length) (le : 2 * head + 1 < bound)
    (agree : frame.AgreeBelow bound m n) (encloses : frame.Encloses m store head) :
    frame.Encloses n store head := by
  refine ⟨encloses.notSkipped.of_agree (by omega) agree, fun object isObject free => ?_⟩
  have rank := proper.rank_definitionBefore inside isObject
  rw [proper.valueBefore_of_agree isObject agree (by omega)]
  exact encloses.kept object isObject free

/-- A model follows a configuration also after a change to what its instruction adds. -/
theorem follows_of_agree {m n : Assignment} {configuration : Configuration}
    (follows : frame.Follows m configuration) (solves : n.Solves frame.equalities)
    (agree : frame.AgreeBelow (2 * configuration.loc + 2) m n) :
    frame.Follows n configuration := by
  refine ⟨⟨follows.inside, fun _ => solves_effect solves, ?_, ?_, ?_⟩, solves, ?_⟩
  · have same := agree (.guard configuration.loc) .bool nofun (Nat.lt_succ_self _)
    rw [← follows.reached]
    exact congrArg (· == Value.bool true) same
  · intro object isObject
    have rank := proper.rank_definitionBefore follows.inside isObject
    rw [proper.valueBefore_of_agree isObject agree (by omega)]
    exact follows.reads object isObject
  · exact follows.notSkipped.of_agree (by omega) agree
  · intro head isHead before within
    have inside := follows.inside
    exact proper.encloses_of_agree (by omega) (by omega) agree
      (follows.heads head isHead before within)

theorem back_isProper {object : Symbol} (isObject : object ∈ frame.objects) (b : Nat) :
    (Name.loopBack object.name b).IsProper := by
  rintro name ⟨⟩
  exact proper.isObjectName object isObject

theorem rank_loopSelect {head b : Nat} (isBack : b ∈ frame.flow.backEdges head) :
    frame.rank (.loopSelect b) = 2 * head + 1 := by
  simp only [rank, proper.headOf_eq isBack]

theorem rank_loopBack {head b : Nat} (isBack : b ∈ frame.flow.backEdges head) (object : String) :
    frame.rank (.loopBack object b) = 2 * head + 1 := by
  simp only [rank, proper.headOf_eq isBack]

/-- The versions written by a call are free. -/
theorem isFree_of_call {loc : Nat} {result : Option Symbol} {callee : String}
    {arguments : List Expr} (here : frame.body[loc]? = some (.call result callee arguments))
    {object : Symbol} (isObject : object ∈ frame.objects) :
    frame.IsFree ((Name.version object.name loc).symbol object.sort) := by
  intro e member same
  obtain ⟨other, instruction, there, member⟩ := frame.mem_equalities.mp member
  have isProper : (Name.version object.name loc).IsProper :=
    proper.definition_isProper isObject (.assigned loc)
  rcases List.mem_append.mp member with merge | rest
  · obtain ⟨merged, isMerged, value, chosen, rfl⟩ := mem_mergeEqualities.mp merge
    have inside := (List.getElem?_eq_some_iff.mp there).1
    have defines := proper.phi_defines inside isMerged chosen
    cases (Name.eq_of_symbol_eq defines.proper isProper same).1
  · rcases List.mem_cons.mp rest with rfl | effect
    · cases (Name.eq_of_symbol_eq (proper.guard_defines other).proper isProper same).1
    · obtain ⟨name, defines, rank⟩ := proper.effect_defines there effect
      rw [defines.lhs_eq] at same
      obtain ⟨rfl, -⟩ := Name.eq_of_symbol_eq defines.proper isProper same
      obtain rfl : loc = other := by
        simp only [Frame.rank] at rank
        omega
      rw [here] at there
      cases there
      cases effect

/-- From a rank on, the choices of steps, the selected back edges and what arrives over them may be
set at will. -/
theorem exists_choices {m : Assignment} (solves : m.Solves frame.equalities) (c : Choices)
    (selects : Nat → Bool) (arriving : Nat → Assignment) (bound : Nat) :
    ∃ n : Assignment, n.Solves frame.equalities ∧ frame.AgreeBelow bound m n ∧
      (∀ loc, bound ≤ 2 * loc + 2 → frame.Chooses n loc c) ∧
      ∀ head, bound ≤ 2 * head + 1 → ∀ b ∈ frame.flow.backEdges head,
        n (loopSelect b) = .bool (selects b) ∧
          ∀ object ∈ frame.objects, n (loopBack object b) = arriving b object := by
  obtain ⟨n, solves', agree, free⟩ :=
    proper.exists_change solves (.ofChoices c selects arriving) bound
  refine ⟨n, solves', agree, fun loc above => ⟨fun k sort => ?_, ?_⟩, ?_⟩
  · have isProper : (Name.nondet loc k).IsProper := nofun
    have isFree := proper.isFree_of_isOpen isProper rfl sort
    rw [free _ sort isProper isFree above, Assignment.ofChoices_nondet]
  · intro result callee arguments here object isObject
    have isProper : (Name.version object.name loc).IsProper :=
      proper.definition_isProper isObject (.assigned loc)
    rw [free _ object.sort isProper (proper.isFree_of_call here isObject) above,
      Assignment.ofChoices_version c selects arriving isProper]
  · intro head above b isBack
    constructor
    · have isProper : (Name.loopSelect b).IsProper := nofun
      have isFree := proper.isFree_of_isOpen isProper rfl .bool
      rw [← proper.rank_loopSelect isBack] at above
      rw [← Assignment.ofChoices_loopSelect c selects arriving b]
      exact free _ .bool isProper isFree above
    · intro object isObject
      have isProper := proper.back_isProper isObject b
      have isFree := proper.isFree_of_isOpen isProper rfl object.sort
      rw [← proper.rank_loopBack isBack object.name] at above
      rw [← Assignment.ofChoices_loopBack c selects arriving isProper]
      exact free _ object.sort isProper isFree above

/-- The model can make any choices at the location that it follows, and select no back edge to a
later head. -/
theorem exists_choose {m : Assignment} {configuration : Configuration}
    (follows : frame.Follows m configuration) (c : Choices) :
    ∃ n, frame.Follows n configuration ∧ frame.Chooses n configuration.loc c ∧
      frame.AgreeBelow (2 * configuration.loc + 2) m n ∧
      ∀ head, configuration.loc < head → ∀ b ∈ frame.flow.backEdges head,
        n.truth (loopSelect b) = false := by
  obtain ⟨n, solves, agree, chooses, selects⟩ := proper.exists_choices follows.solves c
    (fun _ => false) (fun _ => default) (2 * configuration.loc + 2)
  refine ⟨n, proper.follows_of_agree follows solves agree, chooses _ (Nat.le_refl _), agree, ?_⟩
  intro head after b isBack
  rw [Assignment.truth, (selects head (by omega) b isBack).1]
  rfl

section Forward

variable {m : Assignment} {c : Choices} {source : Configuration}
  (follows : frame.Follows m source) (chooses : frame.Chooses m source.loc c)
include follows chooses

/-- A forward step is followed by the same model. -/
theorem follows_forward {target : Configuration} (step : Step frame.body table c source target)
    (ahead : source.loc < target.loc)
    (noBack : ∀ head, source.loc < head → ∀ b ∈ frame.flow.backEdges head,
      m.truth (loopSelect b) = false) : frame.Follows m target := by
  have edge := step.edge
  have onward := follows.onward noBack (proper.accepted.edge_lt edge)
  refine ⟨proper.arrives_forward follows.toArrives chooses step onward ahead (Nat.le_refl _),
    follows.solves, fun head isHead before within => ?_⟩
  have flow := proper.flow_eq
  have le : head ≤ source.loc := by
    rw [flow] at isHead within
    exact proper.accepted.entered _ _ head edge ahead isHead before within
  have encloses := follows.encloses isHead le (by omega)
  refine ⟨encloses.notSkipped, fun object isObject free => ?_⟩
  rw [encloses.kept object isObject free]
  exact (proper.store_step_of_not_assigned follows.toArrives chooses step le (by omega) isObject
    free).symm

/-- A step over a back edge is followed by a model in which the store arrives over the first
selected back edge. -/
theorem exists_back {target : Configuration} (step : Step frame.body table c source target)
    (closes : target.loc ≤ source.loc) (selects : Nat → Bool) (arriving : Nat → Assignment)
    {earlier later : List Nat} {b : Nat}
    (backs : frame.flow.backEdges target.loc = earlier ++ b :: later)
    (skipped : ∀ a ∈ earlier, selects a = false) (selected : selects b = true)
    (arrives : ∀ object ∈ frame.objects, arriving b object = target.store object) :
    ∃ n, frame.Follows n target ∧ frame.AgreeBelow (2 * target.loc + 1) m n ∧
      ∀ head, target.loc ≤ head → ∀ a ∈ frame.flow.backEdges head,
        n (loopSelect a) = .bool (selects a) ∧
          ∀ object ∈ frame.objects, n (loopBack object a) = arriving a object := by
  have inside := proper.accepted.edge_lt step.edge
  have isBack : source.loc ∈ frame.flow.backEdges target.loc := by
    rw [proper.flow_eq]
    exact Flow.mem_backEdges.mpr ⟨step.edge, closes⟩
  have isHead := (Flow.isHead_iff frame.flow).mpr ⟨_, isBack⟩
  have within := Flow.le_extentEnd isBack
  have encloses := follows.encloses isHead closes within
  have unchanged : ∀ head, head ≤ source.loc → source.loc ≤ frame.flow.extentEnd head →
      ∀ object ∈ frame.objects, object.name ∉ frame.loopAssigned head →
        target.store object = source.store object :=
    fun _ le within _ =>
      proper.store_step_of_not_assigned follows.toArrives chooses step le within
  obtain ⟨n, solves, agree, -, free⟩ := proper.exists_choices follows.solves default selects
    arriving (2 * target.loc + 1)
  have select : ∀ a ∈ frame.flow.backEdges target.loc, n.truth (loopSelect a) = selects a := by
    intro a member
    rw [Assignment.truth, (free _ (Nat.le_refl _) a member).1]
    cases selects a <;> rfl
  have isFirst : b ∈ frame.flow.backEdges target.loc := by simp [backs]
  have isEarlier : ∀ a ∈ earlier, a ∈ frame.flow.backEdges target.loc := by
    intro a member
    rw [backs]
    exact List.mem_append_left _ member
  have arrival := solves_arrival solves inside
  refine ⟨n, ⟨⟨inside, fun _ => solves_effect solves, ?_, ?_, ?_⟩, solves, ?_⟩, agree,
    fun head le => free head (by omega)⟩
  · rw [proper.guard_truth arrival, Bool.or_eq_true]
    exact .inr (List.any_eq_true.mpr ⟨b, isFirst, (select b isFirst).trans selected⟩)
  · intro object isObject
    by_cases merged : frame.definitionBefore target.loc object = .merged target.loc
    · -- a merged object is what arrives over the back edge
      have isMerged := (proper.mem_mergedObjects inside).mpr ⟨isObject, merged⟩
      have value := proper.phi_of_back arrival inside isMerged backs
        (fun a member => (select a (isEarlier a member)).trans (skipped a member))
        ((select b isFirst).trans selected)
      rw [valueBefore, merged, ← arrives object isObject,
        ← (free _ (Nat.le_refl _) b isFirst).2 object isObject]
      exact value
    · -- any other object is not assigned in the loop and has kept its value
      have rank := proper.rank_definitionBefore_lt inside isObject merged
      have notAssigned := proper.not_mem_loopAssigned inside isHead isObject merged
      rw [proper.valueBefore_of_agree isObject agree rank,
        encloses.kept object isObject notAssigned,
        unchanged target.loc closes within object isObject notAssigned]
  · exact encloses.notSkipped.of_agree (by omega) agree
  · intro outer isOuter before around
    have nested : frame.flow.extentEnd target.loc ≤ frame.flow.extentEnd outer := by
      rw [proper.flow_eq] at isHead isOuter around ⊢
      exact proper.accepted.nested outer target.loc isOuter isHead before around
    have outerKept := proper.encloses_of_agree (by omega) (by omega) agree
      (follows.encloses isOuter (by omega) (by omega))
    refine ⟨outerKept.notSkipped, fun object isObject notAssigned => ?_⟩
    rw [unchanged outer (by omega) (by omega) object isObject notAssigned]
    exact outerKept.kept object isObject notAssigned

/-- A step over a back edge is followed by a model that, from its target on, selects no other. -/
theorem exists_back_step {target : Configuration} (step : Step frame.body table c source target)
    (closes : target.loc ≤ source.loc) :
    ∃ n, frame.Follows n target ∧ frame.AgreeBelow (2 * target.loc + 1) m n ∧
      ∀ head, target.loc ≤ head → ∀ b ∈ frame.flow.backEdges head,
        n (loopSelect b) = .bool (decide (b = source.loc)) ∧
          ∀ object ∈ frame.objects, n (loopBack object b) = target.store object := by
  have isBack : source.loc ∈ frame.flow.backEdges target.loc :=
    proper.mem_backEdges.mpr ⟨step.edge, closes⟩
  obtain ⟨earlier, later, backs, fresh⟩ := List.eq_append_cons_of_mem isBack
  have notEarlier : ∀ b ∈ earlier, decide (b = source.loc) = false := fun b member =>
    decide_eq_false fun same => fresh (same ▸ member)
  exact proper.exists_back follows chooses step closes (fun b => decide (b = source.loc))
    (fun _ => target.store) backs notEarlier (decide_eq_true rfl) fun _ _ => rfl

end Forward

/-- Every execution is followed from its start, by a model that selects no back edge. -/
theorem exists_entry (start : Assignment) : ∃ m, frame.Follows m ⟨0, start⟩ ∧
    (∀ object ∈ frame.objects, m (Definition.input.version object) = start object) ∧
    ∀ b, m.truth (loopSelect b) = false := by
  let entering := Assignment.ofNames fun name sort =>
    match name with
    | .input object => start ⟨object, sort⟩
    | _ => sort.default
  have kept : ∀ s, frame.IsFree s → entering.define frame.equalities s = entering s := fun s free =>
    Assignment.define_of_not_defined free
  have solves := entering.solves_define proper.ordered
  have selects : ∀ b, (entering.define frame.equalities).truth (loopSelect b) = false := by
    intro b
    have isProper : (Name.loopSelect b).IsProper := nofun
    have isFree : frame.IsFree (loopSelect b) := proper.isFree_of_isOpen isProper rfl .bool
    have value : entering (loopSelect b) = .bool false := Assignment.ofNames_symbol isProper rfl
    rw [Assignment.truth, kept _ isFree, value]
    rfl
  have inputs : ∀ object ∈ frame.objects,
      entering.define frame.equalities (Definition.input.version object) = start object := by
    intro object isObject
    have isProper : (Name.input object.name).IsProper :=
      proper.definition_isProper isObject .input
    have isFree := proper.isFree_of_isOpen isProper rfl object.sort
    exact (kept _ isFree).trans (Assignment.ofNames_symbol isProper (start.sorted object))
  have inside := proper.accepted.length_pos
  have arrival := solves_arrival solves inside
  refine ⟨_, ⟨⟨inside, fun _ => solves_effect solves, ?_, ?_, ?_⟩, solves, ?_⟩, inputs, selects⟩
  · rw [proper.guard_truth arrival]
    rfl
  · intro object isObject
    rw [← inputs object isObject]
    exact proper.valueBefore_entry arrival isObject fun b _ => selects b
  · exact fun source target _ _ before => absurd before (Nat.not_lt_zero _)
  · exact fun head _ before => absurd before (Nat.not_lt_zero _)

/-- Below a rank that covers a head, its back edges are as before. -/
theorem selected_of_agree {m n : Assignment} {bound head b : Nat}
    (agree : frame.AgreeBelow bound m n) (covers : 2 * head + 1 < bound)
    (isBack : b ∈ frame.flow.backEdges head) (selected : n.truth (loopSelect b) = true) :
    m.truth (loopSelect b) = true ∧ ∀ object ∈ frame.objects,
      n (loopBack object b) = m (loopBack object b) := by
  constructor
  · have rank := proper.rank_loopSelect isBack
    have same : n (loopSelect b) = m (loopSelect b) :=
      agree (.loopSelect b) .bool (Name.isProper_of_none rfl) (by omega)
    rwa [Assignment.truth, same] at selected
  · intro object isObject
    have rank := proper.rank_loopBack isBack object.name
    exact agree _ object.sort (proper.back_isProper isObject b) (by omega)

/-- The inputs have the lowest rank. -/
theorem input_of_agree {m n : Assignment} {bound : Nat} (agree : frame.AgreeBelow bound m n)
    (pos : 0 < bound) {object : Symbol} (isObject : object ∈ frame.objects) :
    n (Definition.input.version object) = m (Definition.input.version object) := by
  rw [Definition.version_eq]
  exact agree _ _ (proper.definition_isProper isObject .input) pos

/-- One step is followed by a model that differs from the old one from the earlier of the two
locations on; the only back edge that it may newly select is the one of the step. -/
theorem exists_step {m : Assignment} {c : Choices} {source target : Configuration}
    (follows : frame.Follows m source) (step : Step frame.body table c source target) :
    ∃ n, frame.Follows n target ∧
      frame.AgreeBelow (min (2 * source.loc + 2) (2 * target.loc + 1)) m n ∧
      ∀ head, ∀ b ∈ frame.flow.backEdges head, n.truth (loopSelect b) = true →
        (m.truth (loopSelect b) = true ∧ ∀ object ∈ frame.objects,
          n (loopBack object b) = m (loopBack object b)) ∨
        (b = source.loc ∧ target.loc ≤ source.loc ∧ ∀ object ∈ frame.objects,
          n (loopBack object b) = target.store object) := by
  obtain ⟨middle, follows, chooses, agree, noBack⟩ := proper.exists_choose follows c
  rcases Nat.lt_or_ge source.loc target.loc with ahead | closes
  · refine ⟨middle, proper.follows_forward follows chooses step ahead noBack,
      agree.mono (by omega), fun head b isBack selected => .inl ?_⟩
    rcases Nat.lt_or_ge source.loc head with later | upTo
    · rw [noBack head later b isBack] at selected
      cases selected
    · exact proper.selected_of_agree agree (by omega) isBack selected
  · obtain ⟨n, follows', agree', free⟩ := proper.exists_back_step follows chooses step closes
    have both : frame.AgreeBelow (2 * target.loc + 1) m n :=
      (agree.mono (by omega)).trans agree'
    refine ⟨n, follows', both.mono (by omega), fun head b isBack selected => ?_⟩
    rcases Nat.lt_or_ge head target.loc with outer | inner
    · exact .inl (proper.selected_of_agree both (by omega) isBack selected)
    · obtain ⟨select, arrives⟩ := free head inner b isBack
      rw [Assignment.truth_iff, select, Value.bool.injEq, decide_eq_true_iff] at selected
      exact .inr ⟨selected, closes, arrives⟩

end Proper

end Frame

end TemplateAnalysis
