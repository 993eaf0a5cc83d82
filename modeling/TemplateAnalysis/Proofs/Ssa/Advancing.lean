import TemplateAnalysis.Proofs.Ssa.Transfer

/-! # Models along forward steps

A model arrives at a configuration if the guard of the location is true, the versions before it have
the values of the store, and no edge that is taken from a lower bound on leads past it. A step takes
its own edge and no other, so nothing that lies behind its source and not behind its target is
reached in between, and after a forward step the model arrives at the target. Only the definitions
of the locations on the way matter for this: it holds of a whole form, and of a part of one that is
entered at the lower bound only.
-/

namespace TemplateAnalysis

namespace Frame

variable {frame : Frame} {table : SymbolTable}

/-- No edge that is taken from a lower bound on leads past a location. -/
def NotSkipped (frame : Frame) (m : Assignment) (low loc : Nat) : Prop :=
  ∀ source target, (source, target) ∈ Flow.edges frame.body → low ≤ source → source < loc →
    loc < target → frame.takes m source target = false

/-- The names assigned in the loops of a head. -/
def loopAssigned (frame : Frame) (head : Nat) : List String :=
  Reach.loopAssigns frame.body frame.flow frame.globals head

theorem mem_loopAssigned {head loc : Nat} {instruction : Instruction}
    (here : frame.body[loc]? = some instruction) (le : head ≤ loc)
    (within : loc ≤ frame.flow.extentEnd head) {name : String}
    (assigned : name ∈ instruction.assigns frame.globals) : name ∈ frame.loopAssigned head := by
  refine List.mem_flatMap.mpr ⟨instruction, ?_, assigned⟩
  refine List.mem_iff_getElem?.mpr ⟨loc - head, ?_⟩
  rw [List.getElem?_take_of_lt (by omega), List.getElem?_drop, Nat.add_sub_cancel' le]
  exact here

/-- What is not merged at a head is not assigned in its loops. -/
theorem Regular.not_mem_loopAssigned (regular : frame.Regular table) {head : Nat}
    (inside : head < frame.body.length) (isHead : frame.flow.isHead head = true) {object : Symbol}
    (isObject : object ∈ frame.objects)
    (notMerged : frame.definitionBefore head object ≠ .merged head) :
    object.name ∉ frame.loopAssigned head := by
  rcases regular.definitionBefore_cases inside isObject with merged | ⟨notLooped, -⟩
  · exact absurd merged notMerged
  · simpa [isLooped, isHead, loopAssigned] using notLooped

/-- A model that arrives at a configuration, over locations from a lower bound on. -/
structure Arrives (frame : Frame) (low : Nat) (m : Assignment) (configuration : Configuration) :
    Prop where
  inside : configuration.loc < frame.body.length
  performs : ∀ instruction, frame.body[configuration.loc]? = some instruction →
    m.Solves (frame.effectEqualities configuration.loc instruction)
  reached : m.truth (Name.guard configuration.loc).bool = true
  reads : ∀ object ∈ frame.objects,
    frame.valueBefore m configuration.loc object = configuration.store object
  notSkipped : frame.NotSkipped m low configuration.loc

/-- Behind a location and up to another, the definitions hold, no back edge is selected, and edges
come from a lower bound on only. -/
structure Onward (frame : Frame) (m : Assignment) (low source high : Nat) : Prop where
  arrival : ∀ loc, source < loc → loc ≤ high → m.Solves (frame.arrivalEqualities loc)
  performs : ∀ loc instruction, source < loc → loc ≤ high → frame.body[loc]? = some instruction →
    m.Solves (frame.effectEqualities loc instruction)
  noBack : ∀ loc, source < loc → loc ≤ high → ∀ b ∈ frame.flow.backEdges loc,
    m.truth (loopSelect b) = false
  entered : ∀ loc, source < loc → loc ≤ high → ∀ pred ∈ frame.flow.forwardPreds loc, low ≤ pred

theorem Onward.mono {m : Assignment} {low source source' high : Nat}
    (onward : frame.Onward m low source high) (le : source ≤ source') :
    frame.Onward m low source' high where
  arrival loc after := onward.arrival loc (Nat.lt_of_le_of_lt le after)
  performs loc instruction after := onward.performs loc instruction (Nat.lt_of_le_of_lt le after)
  noBack loc after := onward.noBack loc (Nat.lt_of_le_of_lt le after)
  entered loc after := onward.entered loc (Nat.lt_of_le_of_lt le after)

namespace Proper

variable (proper : frame.Proper table) {m : Assignment} {c : Choices} {low : Nat}
  {source target : Configuration} (arrives : frame.Arrives low m source)
  (chooses : frame.Chooses m source.loc c) (step : Step frame.body table c source target)
include proper arrives chooses step

/-- Of the edges that leave the location, a step takes exactly its own. -/
theorem takes_step {next : Nat} (edge : (source.loc, next) ∈ Flow.edges frame.body) :
    frame.takes m source.loc next = true ↔ next = target.loc := by
  obtain ⟨here, goes⟩ := step
  obtain ⟨instruction, there, isNext⟩ := Flow.mem_edges.mp edge
  obtain rfl := Option.some.inj (here.symm.trans there)
  rw [proper.takes_iff here arrives.reads chooses (arrives.performs _ here) arrives.reached isNext,
    goes, Option.some.injEq, eq_comm]

theorem store_step {object : Symbol} (isObject : object ∈ frame.objects) :
    frame.valueAfter m source.loc object = target.store object := by
  obtain ⟨here, -⟩ := step
  exact proper.valueAfter_eq here arrives.reads chooses (arrives.performs _ here) isObject

/-- In the extent of a head, a step changes only what the loops of the head assign. -/
theorem store_step_of_not_assigned {head : Nat} (le : head ≤ source.loc)
    (within : source.loc ≤ frame.flow.extentEnd head) {object : Symbol}
    (isObject : object ∈ frame.objects) (free : object.name ∉ frame.loopAssigned head) :
    target.store object = source.store object := by
  rw [← proper.store_step arrives chooses step isObject]
  obtain ⟨here, -⟩ := step
  refine proper.valueAfter_of_not_assigned here arrives.reads isObject ?_
  simp only [List.contains_eq_mem, decide_eq_false_iff_not]
  exact fun assigned => free (mem_loopAssigned here le within assigned)

variable {high : Nat} (onward : frame.Onward m low source.loc high)
include onward

/-- No location behind the source of a step is reached before its target. -/
theorem not_reached {loc : Nat} (after : source.loc < loc) (le : loc ≤ high)
    (apart : target.loc ≤ source.loc ∨ loc < target.loc) :
    m.truth (Name.guard loc).bool = false := by
  induction loc using Nat.strongRecOn with
  | ind loc ih =>
    rw [proper.guard_truth (onward.arrival loc after le), Bool.or_eq_false_iff,
      Bool.or_eq_false_iff, List.any_eq_false, List.any_eq_false]
    refine ⟨⟨decide_eq_false (by omega), fun pred isPred => ?_⟩, fun b isBack => ?_⟩
    · have above := onward.entered loc after le pred isPred
      rw [proper.flow_eq] at isPred
      obtain ⟨edge, ahead⟩ := Flow.mem_forwardPreds.mp isPred
      rw [Bool.not_eq_true]
      rcases Nat.lt_trichotomy pred source.loc with earlier | rfl | later
      · exact arrives.notSkipped pred loc edge above earlier after
      · rw [← Bool.not_eq_true, proper.takes_step arrives chooses step edge]
        omega
      · obtain ⟨instruction, here, -⟩ := Flow.mem_edges.mp edge
        rw [takes_eq here, ih pred ahead later (by omega) (by omega), Bool.false_and]
    · rw [Bool.not_eq_true]
      exact onward.noBack loc after le b isBack

/-- From the source of a step on and before its target, no edge but its own is taken. -/
theorem not_taken {pred next : Nat} (edge : (pred, next) ∈ Flow.edges frame.body)
    (after : source.loc ≤ pred) (le : pred ≤ high)
    (before : target.loc ≤ source.loc ∨ pred < target.loc)
    (apart : (pred, next) ≠ (source.loc, target.loc)) : frame.takes m pred next = false := by
  rcases Nat.eq_or_lt_of_le after with rfl | later
  · rw [← Bool.not_eq_true, proper.takes_step arrives chooses step edge]
    rintro rfl
    exact apart rfl
  · obtain ⟨instruction, here, -⟩ := Flow.mem_edges.mp edge
    rw [takes_eq here, proper.not_reached arrives chooses step onward later le before,
      Bool.false_and]

/-- After a forward step, the model arrives at its target. -/
theorem arrives_forward (ahead : source.loc < target.loc) (le : target.loc ≤ high) :
    frame.Arrives low m target := by
  have edge := step.edge
  have isPred : source.loc ∈ frame.flow.forwardPreds target.loc := by
    rw [proper.flow_eq]
    exact Flow.mem_forwardPreds.mpr ⟨edge, ahead⟩
  have taken := (proper.takes_step arrives chooses step edge).mpr rfl
  -- an edge that starts before the target and does not belong to the step is not taken
  have others : ∀ pred next, (pred, next) ∈ Flow.edges frame.body → low ≤ pred →
      pred < target.loc → target.loc ≤ next → (pred, next) ≠ (source.loc, target.loc) →
      frame.takes m pred next = false := by
    intro pred next other above before after apart
    rcases Nat.lt_or_ge pred source.loc with earlier | later
    · exact arrives.notSkipped pred next other above earlier (by omega)
    · exact proper.not_taken arrives chooses step onward other later (by omega) (.inr before) apart
  have arrival := onward.arrival target.loc ahead le
  refine ⟨proper.accepted.edge_lt edge, fun instruction => onward.performs _ instruction ahead le,
    ?_, ?_, ?_⟩
  · rw [proper.guard_truth arrival, Bool.or_eq_true, Bool.or_eq_true]
    exact .inl (.inr (List.any_eq_true.mpr ⟨source.loc, isPred, taken⟩))
  · intro object isObject
    rw [← proper.store_step arrives chooses step isObject]
    refine proper.valueBefore_of_pred arrival isPred (onward.noBack target.loc ahead le) taken ?_
      isObject
    intro pred isOther apart
    have above := onward.entered target.loc ahead le pred isOther
    rw [proper.flow_eq] at isOther
    obtain ⟨other, before⟩ := Flow.mem_forwardPreds.mp isOther
    exact others pred target.loc other above before (Nat.le_refl _) fun same =>
      apart (Prod.mk.inj same).1
  · intro pred next other above before after
    refine others pred next other above before (Nat.le_of_lt after) ?_
    rintro ⟨⟩
    exact Nat.lt_irrefl _ after

end Proper

end Frame

end TemplateAnalysis
