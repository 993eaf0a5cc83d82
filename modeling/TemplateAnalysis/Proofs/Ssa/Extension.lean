import TemplateAnalysis.Proofs.Unwinding.Resolution

/-! # Single-assignment form as a definitional extension

Everything a node reads is known when the node is reached in the order of the locations: it is free,
it was defined at an earlier location, or it was defined by an earlier equality of the node itself.
So the free symbols can be given any values, and these determine all defined symbols: the formulas
of the form alone exclude nothing.
-/

namespace TemplateAnalysis

namespace Ssa

variable {ssa : Ssa}

variable (ssa) in
/-- The symbols that are known at a location, after some definitions of its node: values on entry,
open values, what earlier calls wrote, what arrives over the back edges to the location, and what is
defined at earlier locations or by the definitions before. -/
inductive Known (loc : Nat) (earlier : List Equality) : Symbol → Prop
  | input {object : Symbol} (isObject : object ∈ ssa.objects) :
      Known loc earlier (Definition.input.version object)
  | nondet (k : Nat) (sort : ValueSort) : Known loc earlier ((Name.nondet loc k).symbol sort)
  | output {source : Nat} {node : Node} {call : Call} {s : Symbol} (before : source < loc)
      (there : ssa.nodes[source]? = some node) (isCall : call ∈ node.calls)
      (written : s ∈ call.result.toList ++ call.globalsOut) : Known loc earlier s
  | select {b : Nat} (isBack : b ∈ ssa.flow.backEdges loc) : Known loc earlier (loopSelect b)
  | back {b : Nat} {object : Symbol} (isBack : b ∈ ssa.flow.backEdges loc)
      (isMerged : object ∈ ssa.mergedObjects loc) : Known loc earlier (loopBack object b)
  | before {source : Nat} {node : Node} {e : Equality} (before : source < loc)
      (there : ssa.nodes[source]? = some node) (member : e ∈ node.equalities) :
      Known loc earlier e.lhs
  | here {e : Equality} (member : e ∈ earlier) : Known loc earlier e.lhs

theorem Known.mono {loc : Nat} {earlier later : List Equality} (subset : earlier ⊆ later)
    {s : Symbol} (known : ssa.Known loc earlier s) : ssa.Known loc later s := by
  cases known with
  | input isObject => exact .input isObject
  | nondet k sort => exact .nondet k sort
  | output before there isCall written => exact .output before there isCall written
  | select isBack => exact .select isBack
  | back isBack isMerged => exact .back isBack isMerged
  | before before there member => exact .before before there member
  | here member => exact .here (subset member)

variable (ssa) in
/-- A node reads what is known at a location: in each equality after the equalities before it, and
everywhere else after all of them. -/
structure ReadsKnown (loc : Nat) (node : Node) : Prop where
  equalities : ∀ earlier e later, node.equalities = earlier ++ e :: later →
    ∀ s ∈ e.rhs.occurrences, ssa.Known loc earlier s
  constraints : ∀ s ∈ Expr.occurrencesAll node.constraints, ssa.Known loc node.equalities s
  assertions : ∀ s ∈ Expr.occurrencesAll node.assertions, ssa.Known loc node.equalities s
  calls : ∀ call ∈ node.calls, ∀ s ∈ Expr.occurrencesAll call.arguments ++ call.globalsIn,
    ssa.Known loc node.equalities s

end Ssa

/-- An entry of a list stands at its front, or the front stands before it. -/
private theorem mem_of_split {α : Type} {front back earlier later : List α} {middle a : α}
    (split : front ++ middle :: back = earlier ++ a :: later) :
    a ∈ front ++ [middle] ∨ a ∈ back ∧ front ⊆ earlier := by
  rw [← List.singleton_append, ← List.append_assoc] at split
  rcases List.append_eq_append_iff.mp split with ⟨between, rfl, rfl⟩ | ⟨rest, whole, behind⟩
  · exact .inr ⟨by simp, fun x member => by simp [member]⟩
  · cases rest with
    | nil =>
      rw [List.append_nil] at whole
      rw [List.nil_append] at behind
      exact .inr ⟨by simp [← behind], fun x member => by simp [← whole, member]⟩
    | cons first rest =>
      obtain ⟨rfl, -⟩ := List.cons.inj behind
      exact .inl (by simp [whole])

namespace Frame

variable {frame : Frame}

/-- What an earlier node writes is known. -/
theorem known_of_mem_written {source loc : Nat} (before : source < loc) {instruction : Instruction}
    (there : frame.body[source]? = some instruction) {s : Symbol}
    (written : s ∈ (frame.nodeAt source instruction).written) (params : List Symbol) :
    (frame.complete params).Known loc [] s := by
  obtain ⟨later, found⟩ := getElem?_nodes there params
  rcases List.mem_append.mp written with defined | called
  · obtain ⟨e, member, rfl⟩ := List.mem_map.mp defined
    exact .before before found member
  · obtain ⟨call, isCall, output⟩ := List.mem_flatMap.mp called
    exact .output before found isCall output

namespace Proper

variable {table : SymbolTable} (proper : frame.Proper table)
include proper

theorem oneSort : frame.OneSort := by
  intro instruction member s mentioned object isObject same
  have isSymbol := proper.mentioned instruction member s (List.mem_append_left _ mentioned)
  exact proper.eq_of_name_eq isObject isSymbol same

/-- A version that is introduced before a location is known there. -/
theorem known_version {loc : Nat} {object : Symbol} (isObject : object ∈ frame.objects)
    {d : Definition} (origin : frame.Originates object d)
    (below : frame.rank (d.name object) ≤ 2 * loc) (params : List Symbol) :
    (frame.complete params).Known loc [] (d.version object) := by
  cases origin with
  | input => exact .input isObject
  | @assigned source instruction there assigns =>
    simp only [Definition.name, rank] at below
    obtain ⟨t, written, -, same⟩ := proper.exists_written_of_assigns there isObject assigns
    rw [← same proper.oneSort]
    exact known_of_mem_written (by omega) there written params
  | @merged source inside isMerged =>
    simp only [Definition.name, rank] at below
    have before : source < loc := by omega
    refine known_of_mem_written before (List.getElem?_eq_getElem inside) ?_ params
    exact List.mem_append_left _ (proper.phi_mem_nodeAt inside isMerged _)

theorem known_edge {loc pred : Nat} (isPred : pred ∈ frame.flow.forwardPreds loc)
    (params : List Symbol) :
    (frame.edgeGuard pred loc).TermOver ((frame.complete params).Known loc []) .bool := by
  obtain ⟨earlier, inside⟩ := proper.pred_lt isPred
  have there := List.getElem?_eq_getElem (Nat.lt_trans earlier inside)
  refine edgeGuard_over there ?_ (fun condition branches varies => ?_) loc
  · refine known_of_mem_written earlier there (List.mem_append_left _ ?_) params
    exact frame.guard_mem_nodeAt pred _
  · refine known_of_mem_written earlier there (List.mem_append_left _ ?_) params
    exact proper.cond_mem_nodeAt there branches varies

/-- What is merged at a location is read from what is known on arrival. -/
theorem known_merge {loc : Nat} (inside : loc < frame.body.length) {e : Equality}
    (member : e ∈ frame.mergeEqualities loc) (params : List Symbol) :
    ∀ s ∈ e.rhs.occurrences, (frame.complete params).Known loc [] s := by
  obtain ⟨object, isMerged, value, chosen, rfl⟩ := mem_mergeEqualities.mp member
  have isObject := ((proper.mem_mergedObjects inside).mp isMerged).1
  refine (chooseFirst_term chosen (proper.alternatives_over (fun _ isBack => .select isBack)
    (fun _ isPred => proper.known_edge isPred params) isObject
    (fun _ isBack => .back isBack isMerged) (.input isObject) fun pred isPred => ?_)).within
  obtain ⟨earlier, -⟩ := proper.pred_lt isPred
  have within := Nat.lt_trans earlier inside
  have bound := proper.rank_definitionAfter within isObject
  exact proper.known_version isObject (proper.originates_after within isObject) (by omega) params

/-- Whether a location is reached is read from what is known on arrival. -/
theorem known_guard (loc : Nat) (params : List Symbol) :
    ∀ s ∈ (frame.guardEquality loc).rhs.occurrences, (frame.complete params).Known loc [] s :=
  (Expr.TermOver.disj (reached_over (fun _ isBack => .select isBack)
    fun _ isPred => proper.known_edge isPred params)).within

/-- What reaches a location is known there once the objects are merged. -/
theorem known_arriving {loc : Nat} (inside : loc < frame.body.length) {object : Symbol}
    (isObject : object ∈ frame.objects) {earlier : List Equality}
    (merges : frame.mergeEqualities loc ⊆ earlier) (params : List Symbol) :
    (frame.complete params).Known loc earlier
      ((frame.definitionBefore loc object).version object) := by
  by_cases merged : frame.definitionBefore loc object = .merged loc
  · have isMerged := (proper.mem_mergedObjects inside).mpr ⟨isObject, merged⟩
    obtain ⟨e, member, same⟩ := List.mem_map.mp (proper.phi_mem_mergeEqualities inside isMerged)
    rw [merged]
    change (frame.complete params).Known loc earlier (phi object loc)
    rw [← same]
    exact .here (merges member)
  · have bound := proper.rank_definitionBefore_lt inside isObject merged
    have known := proper.known_version isObject (proper.originates_before inside isObject)
      (Nat.le_of_lt_succ bound) params
    exact known.mono (List.nil_subset _)

/-- The node of a location reads what is known there. -/
theorem readsKnown {loc : Nat} {instruction : Instruction}
    (here : frame.body[loc]? = some instruction) (params : List Symbol) (later : List Expr) :
    (frame.complete params).ReadsKnown loc
      { frame.nodeAt loc instruction with laterAssertions := later } := by
  have inside := (List.getElem?_eq_some_iff.mp here).1
  have effect := fun {earlier} merges => proper.effect_over
    (P := (frame.complete params).Known loc earlier) here
    (fun _ isObject => proper.known_arriving inside isObject merges params) .nondet
  have merges : frame.mergeEqualities loc ⊆ (frame.nodeAt loc instruction).equalities :=
    List.subset_append_left _ _
  refine ⟨?_, List.forall_mem_nil _, (effect merges).2.1, (effect merges).2.2⟩
  intro earlier e rest split
  rcases mem_of_split split with arrival | ⟨own, merged⟩
  · have known : ∀ s ∈ e.rhs.occurrences, (frame.complete params).Known loc [] s := by
      rcases List.mem_append.mp arrival with merge | guard
      · exact proper.known_merge inside merge params
      · rw [List.mem_singleton.mp guard]
        exact proper.known_guard loc params
    exact fun s occurs => (known s occurs).mono (List.nil_subset _)
  · exact (effect merged).1 e own

/-- The nodes define what the definitions of the frame define. -/
theorem not_mem_defined_iff (params : List Symbol) {s : Symbol} :
    s ∉ (frame.complete params).nodes.flatMap Node.defined ↔ frame.IsFree s := by
  have equalities : ∀ {loc instruction}, frame.body[loc]? = some instruction →
      (frame.nodeAt loc instruction).equalities = frame.equalitiesAt loc instruction := by
    intro loc instruction here
    rw [nodeAt, equalitiesAt, (proper.effectAt_eq here).1]
  constructor
  · intro undefined e member same
    obtain ⟨loc, instruction, here, member⟩ := frame.mem_equalities.mp member
    obtain ⟨later, found⟩ := getElem?_nodes here params
    refine undefined (List.mem_flatMap.mpr ⟨_, List.mem_of_getElem? found, ?_⟩)
    exact List.mem_map.mpr ⟨e, equalities here ▸ member, same⟩
  · intro free defined
    obtain ⟨node, isNode, defined⟩ := List.mem_flatMap.mp defined
    obtain ⟨e, member, same⟩ := List.mem_map.mp defined
    obtain ⟨loc, found⟩ := List.mem_iff_getElem?.mp isNode
    obtain ⟨instruction, later, here, rfl⟩ := exists_of_getElem?_nodes found
    exact free e (frame.mem_equalities.mpr ⟨loc, instruction, here, equalities here ▸ member⟩) same

/-- Any values of the free symbols extend to exactly one model. -/
theorem existsUnique_model (params : List Symbol) (a : Assignment) :
    ∃! m : Assignment, (∀ s ∉ (frame.complete params).nodes.flatMap Node.defined, m s = a s) ∧
      m.Satisfies (frame.complete params).formulas := by
  simp only [proper.satisfies_iff, proper.not_mem_defined_iff]
  refine ⟨a.define frame.equalities, ⟨fun s free => Assignment.define_of_not_defined free,
    a.solves_define proper.ordered⟩, ?_⟩
  rintro m ⟨kept, solves⟩
  refine Assignment.eq_of_solves proper.ordered solves (a.solves_define proper.ordered) ?_
  intro s free
  rw [kept s free, Assignment.define_of_not_defined free]

end Proper

end Frame

namespace Ssa

variable {function : String} {procedure : Procedure} {table : SymbolTable} {ssa : Ssa}

/-- The form of a well-formed procedure is a definitional extension: every node reads what is known
at its location, any values of the symbols that no node defines extend to exactly one model of the
formulas, and so there is a model. -/
theorem definitional_extension (built : Ssa.build function procedure table = .ok ssa)
    (wellFormed : procedure.WellFormed table) :
    (∀ loc node, ssa.nodes[loc]? = some node → ssa.ReadsKnown loc node) ∧
    (∀ a : Assignment, ∃! m : Assignment,
      (∀ s ∉ ssa.nodes.flatMap Node.defined, m s = a s) ∧ m.Satisfies ssa.formulas) ∧
    ∃ m : Assignment, m.Satisfies ssa.formulas := by
  obtain ⟨frame, isFrame, rfl⟩ := frame_of_build built
  obtain ⟨proper, -, -⟩ := Frame.proper_of_build isFrame wellFormed
  refine ⟨?_, proper.existsUnique_model procedure.params, ?_⟩
  · intro loc node found
    obtain ⟨instruction, later, here, rfl⟩ := Frame.exists_of_getElem?_nodes found
    exact proper.readsKnown here procedure.params later
  · obtain ⟨m, ⟨-, satisfies⟩, -⟩ := proper.existsUnique_model procedure.params default
    exact ⟨m, satisfies⟩

/-- A call, a loop with an open exit, and behind the return a loop that is never entered. -/
def trailing : Procedure where
  params := [⟨"x", .int⟩]
  body := [
    .call (some ⟨"x", .int⟩) "other" [.var ⟨"x", .int⟩],
    .goto (.nondet .bool) 4,
    .assign ⟨"x", .int⟩ (.arith .add (.var ⟨"x", .int⟩) (.var ⟨"g", .int⟩)),
    .goto (.bool true) 1,
    .ret (some (.var ⟨"x", .int⟩)),
    .assign ⟨"x", .int⟩ (.arith .sub (.var ⟨"x", .int⟩) (.int 1)),
    .goto (.cmp .lt (.int 0) (.var ⟨"x", .int⟩)) 5,
    .endFunction]

/-- The loop behind the return has a head that no edge reaches from before. -/
theorem definitional_extension_trailing : ∃ ssa,
    Ssa.build "trailing" trailing [("g", ⟨.int, true⟩)] = .ok ssa ∧
    trailing.WellFormed [("g", ⟨.int, true⟩)] ∧
    ssa.flow.isHead 5 = true ∧ ssa.flow.forwardPreds 5 = [] ∧
    (∀ loc node, ssa.nodes[loc]? = some node → ssa.ReadsKnown loc node) ∧
    ∀ a : Assignment, ∃! m : Assignment,
      (∀ s ∉ ssa.nodes.flatMap Node.defined, m s = a s) ∧ m.Satisfies ssa.formulas := by
  have wellFormed : trailing.WellFormed [("g", ⟨.int, true⟩)] := by
    refine ⟨?_, ?_, ?_⟩ <;> decide
  obtain ⟨ssa, built, isHead, unreached⟩ : ∃ ssa,
      Ssa.build "trailing" trailing [("g", ⟨.int, true⟩)] = .ok ssa ∧
      ssa.flow.isHead 5 = true ∧ ssa.flow.forwardPreds 5 = [] := ⟨_, rfl, rfl, rfl⟩
  obtain ⟨reads, unique, -⟩ := definitional_extension built wellFormed
  exact ⟨ssa, built, wellFormed, isHead, unreached, reads, unique⟩

end Ssa

end TemplateAnalysis
