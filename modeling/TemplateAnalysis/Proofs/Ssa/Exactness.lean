import TemplateAnalysis.Proofs.Ssa.OverApproximation

/-! # Without loops, single-assignment form is exact

A model of the formulas determines an execution: it starts with the input values of the model and
makes at each location the choices that the model gives to the open symbols. If no edge goes back,
the model describes this execution in full: the guards say which locations it reaches, the versions
have the values of its objects before and after each of them, assertions have the values of what is
asserted, and the outgoing symbols have the final values.
-/

namespace TemplateAnalysis

namespace Assignment

variable (m : Assignment)

/-- The store of the input values. -/
def entryStore : Assignment where
  value s := m ((Name.input s.name).symbol s.sort)
  sorted _ := m.sorted _

/-- The choices that the open symbols of a location stand for. -/
def choicesAt (loc : Nat) : Choices where
  opened k sort := m ((Name.nondet loc k).symbol sort)
  opened_sort _ _ := m.sorted _
  written :=
    { value := fun s => m ((Name.version s.name loc).symbol s.sort)
      sorted := fun _ => m.sorted _ }

/-- The execution with the inputs and the choices of the assignment arrives at a configuration. -/
def Runs (m : Assignment) (procedure : Procedure) (table : SymbolTable) : Configuration → Prop :=
  Reaches procedure.body table (fun loc c => c = m.choicesAt loc) m.entryStore

end Assignment

namespace Frame.Proper

variable {frame : Frame} {table : SymbolTable} (proper : frame.Proper table)
  (acyclic : ∀ edge ∈ Flow.edges frame.body, edge.1 < edge.2) {m : Assignment}
  (solves : m.Solves frame.equalities)
include proper acyclic

theorem not_mem_backEdges (head b : Nat) : b ∉ frame.flow.backEdges head := by
  intro isBack
  rw [proper.flow_eq] at isBack
  obtain ⟨edge, closes⟩ := Flow.mem_backEdges.mp isBack
  have ahead := acyclic _ edge
  dsimp only at ahead
  omega

omit proper acyclic in
theorem chooses_choicesAt (loc : Nat) : frame.Chooses m loc (m.choicesAt loc) :=
  ⟨fun _ _ => rfl, fun _ _ _ _ _ _ => rfl⟩

include solves

/-- Without back edges, a model follows its own execution. -/
theorem follows_of_reaches {configuration : Configuration}
    (reaches : Reaches frame.body table (fun loc c => c = m.choicesAt loc) m.entryStore
      configuration) : frame.Follows m configuration := by
  have noBack := proper.not_mem_backEdges acyclic
  induction reaches with
  | entry =>
    have inside := proper.accepted.length_pos
    have arrival := solves_arrival solves inside
    refine ⟨⟨inside, fun _ => solves_effect solves, ?_, ?_, ?_⟩, solves, ?_⟩
    · rw [proper.guard_truth arrival]
      rfl
    · intro object isObject
      exact proper.valueBefore_entry arrival isObject fun b isBack => absurd isBack (noBack 0 b)
    · exact fun source target _ _ before => absurd before (Nat.not_lt_zero _)
    · exact fun head _ before => absurd before (Nat.not_lt_zero _)
  | @step source target c run allowed taken ih =>
    subst allowed
    exact proper.follows_forward ih (chooses_choicesAt source.loc) taken (acyclic _ taken.edge)
      fun head _ b isBack => absurd isBack (noBack head b)

/-- Without back edges, every location whose guard is true is reached. -/
theorem exists_reaches_of_guard {loc : Nat} (inside : loc < frame.body.length)
    (guard : m.truth (Name.guard loc).bool = true) :
    ∃ store, Reaches frame.body table (fun loc c => c = m.choicesAt loc) m.entryStore
      ⟨loc, store⟩ := by
  induction loc using Nat.strongRecOn with
  | ind loc ih =>
    rw [proper.guard_truth (solves_arrival solves inside), Bool.or_eq_true, Bool.or_eq_true]
      at guard
    rcases guard with (isEntry | forward) | back
    · obtain rfl := of_decide_eq_true isEntry
      exact ⟨_, .entry⟩
    · -- the location follows a reached one, from which the execution takes the same edge
      obtain ⟨pred, isPred, taken⟩ := List.any_eq_true.mp forward
      have bounds := proper.pred_lt isPred
      rw [proper.flow_eq] at isPred
      have edge := (Flow.mem_forwardPreds.mp isPred).1
      have reached := guard_of_takes edge taken
      obtain ⟨instruction, here, isNext⟩ := Flow.mem_edges.mp edge
      obtain ⟨store, reaches⟩ := ih pred bounds.1 (by omega) reached
      have follows := proper.follows_of_reaches acyclic solves reaches
      have goes := (proper.takes_iff here follows.reads (chooses_choicesAt pred)
        (solves_effect solves here) reached isNext).mp taken
      exact ⟨_, .step reaches rfl (.perform here goes)⟩
    · obtain ⟨b, isBack, -⟩ := List.any_eq_true.mp back
      exact absurd isBack (proper.not_mem_backEdges acyclic loc b)

omit acyclic solves in
/-- The object of a version is the object it was made for. -/
theorem object_version {object : Symbol} (isObject : object ∈ frame.objects) (d : Definition) :
    (d.version object).object = object.name := by
  rw [d.version_eq, Name.object_symbol (proper.definition_isProper isObject d)]
  cases d <;> rfl

omit acyclic solves in
/-- What leaves the procedure: the versions of globals and of what is returned at its end. -/
theorem mem_outgoing {version : Symbol} : version ∈ frame.outgoing ↔
    ∃ object ∈ frame.objects, (table.isStatic object.name = true ∨ object.name = returnValue) ∧
      version = (frame.definitionBefore (frame.body.length - 1) object).version object := by
  have inside : frame.body.length - 1 < frame.body.length := by
    have pos := proper.accepted.length_pos
    omega
  simp only [outgoing, SymbolSet.mem_ofList, List.mem_filterMap, List.mem_append, proper.globals_eq,
    List.mem_filter, beq_iff_eq, ← and_or_left]
  constructor
  · rintro ⟨object, ⟨isObject, leaves⟩, read⟩
    rw [proper.readBefore?_eq inside isObject] at read
    exact ⟨object, isObject, leaves, (Option.some.inj read).symm⟩
  · rintro ⟨object, isObject, leaves, rfl⟩
    exact ⟨object, ⟨isObject, leaves⟩, proper.readBefore?_eq inside isObject⟩

end Frame.Proper

namespace Ssa

/-- The form describes the execution that a model determines. -/
structure Exact (ssa : Ssa) (procedure : Procedure) (table : SymbolTable) (m : Assignment) :
    Prop where
  /-- guards say which locations are reached -/
  reached : ∀ loc < procedure.body.length, m (Name.guard loc).bool = .bool true ↔
    ∃ store, m.Runs procedure table ⟨loc, store⟩
  /-- versions before a location have the values of the store there -/
  before : ∀ loc store, m.Runs procedure table ⟨loc, store⟩ →
    ∀ object ∈ procedure.symbols table, ∃ version,
      ssa.readBefore? object.name loc = some version ∧ m version = store object
  /-- versions after a location have the values of the store after its instruction -/
  after : ∀ loc store, m.Runs procedure table ⟨loc, store⟩ →
    ∃ instruction, procedure.body[loc]? = some instruction ∧
      ∀ object ∈ procedure.symbols table, ∃ version, ssa.readAfter? object.name loc = some version ∧
        m version = instruction.after table (m.choicesAt loc) store object
  /-- assertions have the values of what is asserted -/
  asserted : ∀ loc store, m.Runs procedure table ⟨loc, store⟩ →
    ∃ instruction node, procedure.body[loc]? = some instruction ∧ ssa.nodes[loc]? = some node ∧
      node.assertions.map (·.eval m.valuation) =
        instruction.asserted.map (·.valueIn store (m.choicesAt loc))
  /-- at the end, the outgoing symbols are those of the globals and of what is returned, and they
  have the final values -/
  outgoing : ∀ store, m.Runs procedure table ⟨procedure.body.length - 1, store⟩ →
    (∀ object ∈ procedure.symbols table,
      table.isStatic object.name = true ∨ object.name = returnValue →
      ∃ version ∈ ssa.globalsOut, version.object = object.name ∧ m version = store object) ∧
    ∀ version ∈ ssa.globalsOut, ∃ object ∈ procedure.symbols table,
      (table.isStatic object.name = true ∨ object.name = returnValue) ∧
        version.object = object.name ∧ m version = store object

variable {function : String} {procedure : Procedure} {table : SymbolTable} {ssa : Ssa}

/-- Without back edges, every model of the formulas describes the execution it determines. -/
theorem exact_of_no_back_edges (built : Ssa.build function procedure table = .ok ssa)
    (wellFormed : procedure.WellFormed table)
    (acyclic : ∀ edge ∈ Flow.edges procedure.body, edge.1 < edge.2) {m : Assignment}
    (satisfies : m.Satisfies ssa.formulas) : ssa.Exact procedure table m := by
  obtain ⟨frame, isFrame, rfl⟩ := frame_of_build built
  obtain ⟨proper, body, objects⟩ := Frame.proper_of_build isFrame wellFormed
  have solves := (proper.satisfies_iff _).mp satisfies
  have isObject : ∀ object ∈ procedure.symbols table, object ∈ frame.objects := by
    intro object isSymbol
    rw [objects]
    exact wellFormed.mem_objectsOf.mpr isSymbol
  have isSymbol : ∀ object ∈ frame.objects, object ∈ procedure.symbols table := by
    intro object member
    rw [objects] at member
    exact wellFormed.mem_objectsOf.mp member
  rw [← body] at acyclic
  have follows : ∀ {configuration}, m.Runs procedure table configuration →
      frame.Follows m configuration := by
    intro configuration runs
    rw [Assignment.Runs, ← body] at runs
    exact proper.follows_of_reaches acyclic solves runs
  have located : ∀ {loc store}, m.Runs procedure table ⟨loc, store⟩ →
      ∃ instruction, frame.body[loc]? = some instruction := fun runs =>
    ⟨_, List.getElem?_eq_getElem (follows runs).inside⟩
  refine ⟨?_, ?_, ?_, ?_, ?_⟩
  · intro loc inside
    constructor
    · intro guard
      rw [← body] at inside
      rw [Assignment.Runs, ← body]
      exact proper.exists_reaches_of_guard acyclic solves inside (m.truth_iff.mpr guard)
    · rintro ⟨store, runs⟩
      exact m.truth_iff.mp (follows runs).reached
  · intro loc store runs object symbol
    exact proper.readBefore_of_follows (follows runs) (isObject object symbol)
  · intro loc store runs
    obtain ⟨instruction, here⟩ := located runs
    refine ⟨instruction, body ▸ here, fun object symbol => ?_⟩
    have value := proper.valueAfter_eq here (follows runs).reads
      (Frame.Proper.chooses_choicesAt loc) (Frame.solves_effect solves here)
      (isObject object symbol)
    exact ⟨_, proper.readAfter?_eq (follows runs).inside (isObject object symbol), value⟩
  · intro loc store runs
    obtain ⟨instruction, here⟩ := located runs
    obtain ⟨node, isNode, assertions⟩ := Frame.exists_node here procedure.params
    refine ⟨instruction, node, body ▸ here, isNode, ?_⟩
    rw [assertions]
    exact proper.eval_assertions here (follows runs).reads (Frame.Proper.chooses_choicesAt loc)
  · intro store runs
    rw [← body] at runs
    have reads := (follows runs).reads
    constructor
    · intro object symbol leaves
      have member := isObject object symbol
      exact ⟨_, proper.mem_outgoing.mpr ⟨object, member, leaves, rfl⟩,
        proper.object_version member _, reads object member⟩
    · intro version isOut
      obtain ⟨object, member, leaves, rfl⟩ := proper.mem_outgoing.mp isOut
      exact ⟨object, isSymbol object member, leaves, proper.object_version member _,
        reads object member⟩

/-- A branch around a call, an open addend, an assertion and a return. -/
def branching : Procedure where
  params := [⟨"x", .int⟩]
  body := [
    .goto (.nondet .bool) 2,
    .call (some ⟨"x", .int⟩) "other" [],
    .assign ⟨"g", .int⟩ (.arith .add (.var ⟨"x", .int⟩) (.nondet .int)),
    .assert (.equation (.var ⟨"g", .int⟩) (.var ⟨"x", .int⟩)),
    .ret (some (.var ⟨"g", .int⟩)),
    .endFunction]

/-- Some model of the branching procedure, and with it every location that it reaches. -/
theorem exact_branching : ∃ ssa,
    Ssa.build "branch" branching [("g", ⟨.int, true⟩)] = .ok ssa ∧
    branching.WellFormed [("g", ⟨.int, true⟩)] ∧
    (∀ edge ∈ Flow.edges branching.body, edge.1 < edge.2) ∧
    ∃ m : Assignment, m.Satisfies ssa.formulas ∧ ssa.Exact branching [("g", ⟨.int, true⟩)] m := by
  have wellFormed : branching.WellFormed [("g", ⟨.int, true⟩)] := by
    refine ⟨?_, ?_, ?_⟩ <;> decide
  have acyclic : ∀ edge ∈ Flow.edges branching.body, edge.1 < edge.2 := by decide
  obtain ⟨ssa, built⟩ : ∃ ssa, Ssa.build "branch" branching [("g", ⟨.int, true⟩)] = .ok ssa :=
    ⟨_, rfl⟩
  obtain ⟨frame, isFrame, same⟩ := frame_of_build built
  obtain ⟨proper, -⟩ := Frame.proper_of_build isFrame wellFormed
  have solves := (default : Assignment).solves_define proper.ordered
  have satisfies := (proper.satisfies_iff branching.params).mpr solves
  rw [← same] at satisfies
  exact ⟨ssa, built, wellFormed, acyclic, _, satisfies,
    exact_of_no_back_edges built wellFormed acyclic satisfies⟩

end Ssa

end TemplateAnalysis
