import TemplateAnalysis.Proofs.Ssa.Following

/-! # Single-assignment form covers every execution

Whatever an execution does, with any number of loop iterations and any choices of what the program
leaves open, the formulas have a model in which the location it arrives at is reached and the
versions there have the values of the store. So an assertion that some execution violates is
violated in a model in which its location is reached.
-/

namespace TemplateAnalysis

namespace Frame

variable {frame : Frame}

/-- The node of a location holds the assertions of its instruction. -/
theorem exists_node {loc : Nat} {instruction : Instruction}
    (here : frame.body[loc]? = some instruction) (params : List Symbol) :
    ∃ node, (frame.complete params).nodes[loc]? = some node ∧
      node.assertions = (frame.effectAt loc instruction).assertions := by
  obtain ⟨later, found⟩ := getElem?_nodes here params
  exact ⟨_, found, rfl⟩

namespace Proper

variable {table : SymbolTable} (proper : frame.Proper table)
include proper

/-- Every execution is followed by a model whose inputs are the values it starts with. -/
theorem exists_follows {permitted : Nat → Choices → Prop} {start : Assignment}
    {configuration : Configuration}
    (reaches : Reaches frame.body table permitted start configuration) :
    ∃ m, frame.Follows m configuration ∧
      ∀ object ∈ frame.objects, m (Definition.input.version object) = start object := by
  induction reaches with
  | entry =>
    obtain ⟨m, follows, inputs, -⟩ := proper.exists_entry start
    exact ⟨m, follows, inputs⟩
  | @step source target c run allowed taken ih =>
    obtain ⟨m, follows, inputs⟩ := ih
    obtain ⟨n, follows', agree, -⟩ := proper.exists_step follows taken
    refine ⟨n, follows', fun object isObject => ?_⟩
    rw [← inputs object isObject]
    exact proper.input_of_agree agree (by omega) isObject

/-- What following a configuration says in terms of the form. -/
theorem readBefore_of_follows {m : Assignment} {configuration : Configuration}
    (follows : frame.Follows m configuration) {object : Symbol}
    (isObject : object ∈ frame.objects) :
    ∃ version, frame.readBefore? object.name configuration.loc = some version ∧
      m version = configuration.store object :=
  ⟨_, proper.readBefore?_eq follows.inside isObject, follows.reads object isObject⟩

end Proper

end Frame

namespace Ssa

variable {function : String} {procedure : Procedure} {table : SymbolTable} {ssa : Ssa}

theorem frame_of_build (built : Ssa.build function procedure table = .ok ssa) :
    ∃ frame, Frame.build function procedure table = .ok frame ∧
      ssa = frame.complete procedure.params := by
  unfold Ssa.build at built
  split at built
  · cases built
  · next frame isFrame => exact ⟨frame, isFrame, (Except.ok.inj built).symm⟩

/-- Every execution of a well-formed procedure, wherever it arrives and whatever it chose, has a
model of the formulas with the location reached and the versions at the values of the store; if it
is about to violate an assertion, some such model violates the assertion of the form. -/
theorem exists_model_of_reaches (built : Ssa.build function procedure table = .ok ssa)
    (wellFormed : procedure.WellFormed table) {start : Assignment} {loc : Nat} {store : Assignment}
    (reaches : Reaches procedure.body table anyChoices start ⟨loc, store⟩) :
    (∃ m : Assignment, m.Satisfies ssa.formulas ∧ m (Name.guard loc).bool = .bool true ∧
      ∀ object ∈ procedure.symbols table, ∃ version,
        ssa.readBefore? object.name loc = some version ∧ m version = store object) ∧
    ∀ condition c, procedure.body[loc]? = some (.assert condition) →
      condition.valueIn store c = some (.bool false) →
      ∃ m : Assignment, m.Satisfies ssa.formulas ∧ m (Name.guard loc).bool = .bool true ∧
        (∀ object ∈ procedure.symbols table, ∃ version,
          ssa.readBefore? object.name loc = some version ∧ m version = store object) ∧
        ∃ node, ssa.nodes[loc]? = some node ∧
          ∃ assertion ∈ node.assertions, assertion.eval m.valuation = some (.bool false) := by
  obtain ⟨frame, isFrame, rfl⟩ := frame_of_build built
  obtain ⟨proper, body, objects⟩ := Frame.proper_of_build isFrame wellFormed
  rw [← body] at reaches
  obtain ⟨m, follows, -⟩ := proper.exists_follows reaches
  have models : ∀ {n : Assignment}, frame.Follows n ⟨loc, store⟩ →
      n.Satisfies (frame.complete procedure.params).formulas ∧
        n (Name.guard loc).bool = .bool true ∧ ∀ object ∈ procedure.symbols table, ∃ version,
          frame.readBefore? object.name loc = some version ∧ n version = store object := by
    intro n follows
    refine ⟨(proper.satisfies_iff _).mpr follows.solves, n.truth_iff.mp follows.reached, ?_⟩
    intro object isSymbol
    refine proper.readBefore_of_follows follows ?_
    rw [objects]
    exact wellFormed.mem_objectsOf.mpr isSymbol
  refine ⟨⟨m, models follows⟩, ?_⟩
  intro condition c asserts violated
  rw [← body] at asserts
  obtain ⟨n, follows', chooses, -⟩ := proper.exists_choose follows c
  obtain ⟨satisfies, reached, reads⟩ := models follows'
  obtain ⟨node, isNode, assertions⟩ := Frame.exists_node asserts procedure.params
  have values := proper.eval_assertions asserts follows'.reads chooses
  refine ⟨n, satisfies, reached, reads, node, isNode, ?_⟩
  rw [assertions]
  rw [Instruction.asserted, List.map_singleton, violated, List.map_eq_singleton_iff] at values
  obtain ⟨assertion, only, value⟩ := values
  exact ⟨assertion, by simp [only], value⟩

/-- A loop that counts until it is left, and an assertion that nothing was counted. -/
def counting : Procedure where
  params := [⟨"x", .int⟩]
  body := [
    .goto (.nondet .bool) 3,
    .assign ⟨"x", .int⟩ (.arith .add (.var ⟨"x", .int⟩) (.int 1)),
    .goto (.bool true) 0,
    .assert (.equation (.var ⟨"x", .int⟩) (.int 0)),
    .endFunction]

/-- The choices of a step that leaves the loop, or stays in it. -/
def leaving (leave : Bool) : Choices where
  opened _ sort :=
    match sort with
    | .bool => .bool leave
    | .int => .int 0
  opened_sort _ sort := by cases sort <;> rfl
  written := default

/-- The store after one round of counting from zero. -/
def counted : Assignment := Assignment.set default ⟨"x", .int⟩ (.int (0 + 1))

private theorem counting_reaches :
    Reaches counting.body [] anyChoices default ⟨3, counted⟩ := by
  have stays : Reaches counting.body [] anyChoices default ⟨1, default⟩ :=
    .step (c := leaving false) .entry trivial (.of_after rfl rfl rfl)
  have adds : Reaches counting.body [] anyChoices default ⟨2, counted⟩ :=
    .step (c := leaving false) stays trivial (.of_after rfl rfl rfl)
  have again : Reaches counting.body [] anyChoices default ⟨0, counted⟩ :=
    .step (c := leaving false) adds trivial (.of_after rfl rfl rfl)
  exact .step (c := leaving true) again trivial (.of_after rfl rfl rfl)

/-- After one round through the loop, the assertion is violated in a model. -/
theorem exists_model_of_counting : ∃ ssa, Ssa.build "count" counting [] = .ok ssa ∧
    counting.WellFormed [] ∧ Reaches counting.body [] anyChoices default ⟨3, counted⟩ ∧
    ∃ m : Assignment, m.Satisfies ssa.formulas ∧ m (Name.guard 3).bool = .bool true ∧
      (∃ version, ssa.readBefore? "x" 3 = some version ∧ m version = .int 1) ∧
      ∃ node, ssa.nodes[3]? = some node ∧
        ∃ assertion ∈ node.assertions, assertion.eval m.valuation = some (.bool false) := by
  have wellFormed : counting.WellFormed [] := by
    refine ⟨?_, ?_, ?_⟩ <;> decide
  obtain ⟨ssa, built⟩ : ∃ ssa, Ssa.build "count" counting [] = .ok ssa := ⟨_, rfl⟩
  obtain ⟨m, satisfies, reached, reads, violated⟩ :=
    (exists_model_of_reaches built wellFormed counting_reaches).2 _ (leaving true) rfl rfl
  have read := reads ⟨"x", .int⟩ (by decide)
  exact ⟨ssa, built, wellFormed, counting_reaches, m, satisfies, reached, read, violated⟩

end Ssa

end TemplateAnalysis
