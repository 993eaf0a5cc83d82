import TemplateAnalysis.Proofs.Ssa.Models

/-! # What nodes read

A definition that reaches a location was made where an instruction assigns the object or where it is
merged. So a node reads guards, conditions of branches, versions made somewhere and open symbols,
and the open symbols are those of its own location. This holds of every accepted procedure, whatever
its objects are called and whichever sorts they have.
-/

namespace TemplateAnalysis

namespace Frame

variable {frame : Frame}

variable (frame) in
/-- Where the definition of an object is made. -/
inductive Originates (object : Symbol) : Definition → Prop
  | input : Originates object .input
  | assigned {loc : Nat} {instruction : Instruction} (here : frame.body[loc]? = some instruction)
      (assigns : object.name ∈ instruction.assigns frame.globals) :
      Originates object (.assigned loc)
  | merged {loc : Nat} (inside : loc < frame.body.length)
      (isMerged : object ∈ frame.mergedObjects loc) : Originates object (.merged loc)

variable (frame) in
/-- The symbols to which some location gives a value, and those of the values on entry. -/
inductive Made : Symbol → Prop
  | guard {loc : Nat} (inside : loc < frame.body.length) : Made (Name.guard loc).bool
  | cond {loc : Nat} {instruction : Instruction} {condition : Expr}
      (here : frame.body[loc]? = some instruction)
      (branches : instruction.branch? = some condition) (varies : condition.isConstant = false) :
      Made (Name.cond loc).bool
  | version {object : Symbol} {d : Definition} (isObject : object ∈ frame.objects)
      (origin : frame.Originates object d) : Made (d.version object)

variable (frame) in
/-- The symbols that the node of a location may read. -/
inductive Reads (loc : Nat) : Symbol → Prop
  | made {s : Symbol} (made : frame.Made s) : Reads loc s
  | select {b : Nat} (isBack : b ∈ frame.flow.backEdges loc) : Reads loc (loopSelect b)
  | back {b : Nat} (isBack : b ∈ frame.flow.backEdges loc) (object : Symbol) :
      Reads loc (loopBack object b)
  | opened (k : Nat) (sort : ValueSort) : Reads loc ((Name.nondet loc k).symbol sort)

theorem edgeGuard_made {loc : Nat} (inside : loc < frame.body.length) (next : Nat) :
    (frame.edgeGuard loc next).TermOver frame.Made .bool :=
  edgeGuard_over (List.getElem?_eq_getElem inside) (.guard inside)
    (fun _ branches varies => .cond (List.getElem?_eq_getElem inside) branches varies) next

namespace Regular

variable {table : SymbolTable} (regular : frame.Regular table)
include regular

theorem originates_before {loc : Nat} (inside : loc < frame.body.length) {object : Symbol}
    (isObject : object ∈ frame.objects) :
    frame.Originates object (frame.definitionBefore loc object) := by
  induction loc using Nat.strongRecOn with
  | ind loc ih =>
    rcases regular.definitionBefore_cases inside isObject with merged | ⟨-, same, entry⟩
    · rw [merged]
      exact .merged inside ((regular.mem_mergedObjects inside).mpr ⟨isObject, merged⟩)
    · cases arrived : frame.arriving loc with
      | nil =>
        rw [entry arrived]
        exact .input
      | cons d rest =>
        have arrives : d ∈ frame.arriving loc := by simp [arrived]
        rw [← same d arrives]
        rcases mem_arriving arrives with rfl | ⟨pred, isPred, rfl⟩
        · exact .input
        · obtain ⟨earlier, -⟩ := regular.pred_lt isPred
          have within : pred < frame.body.length := Nat.lt_trans earlier inside
          rw [regular.definitionAfter_eq (List.getElem?_eq_getElem within) isObject]
          split
          · next assigns =>
            exact .assigned (List.getElem?_eq_getElem within) (List.contains_iff_mem.mp assigns)
          · exact ih pred earlier within

theorem originates_after {loc : Nat} (inside : loc < frame.body.length) {object : Symbol}
    (isObject : object ∈ frame.objects) :
    frame.Originates object (frame.definitionAfter loc object) := by
  rw [regular.definitionAfter_eq (List.getElem?_eq_getElem inside) isObject]
  split
  · next assigns =>
    exact .assigned (List.getElem?_eq_getElem inside) (List.contains_iff_mem.mp assigns)
  · exact regular.originates_before inside isObject

section

variable {P : Symbol → Prop} {loc : Nat} {instruction : Instruction}
  (here : frame.body[loc]? = some instruction) {reach : Reach}
  (found : frame.reaching[loc]? = some reach)
  (arrives : ∀ object ∈ frame.objects, P ((frame.definitionBefore loc object).version object))
  (opened : ∀ k sort, P ((Name.nondet loc k).symbol sort))
include here found arrives

/-- A symbol of the instruction is read as a version of an object. -/
theorem image_over {s : Symbol} (mentioned : s ∈ instruction.mentioned) :
    P (Expr.imageUnder (fun s => reach.before.version? s.name) s) := by
  obtain ⟨object, isObject, same⟩ := regular.exists_object instruction (List.mem_of_getElem? here) s
    (List.mem_append_left _ mentioned)
  have version : reach.before.version? s.name =
      some ((frame.definitionBefore loc object).version object) := by
    rw [← same, Definitions.version?, regular.find?_before found isObject]
    rfl
  rw [Expr.imageUnder, version]
  exact arrives object isObject

include opened

theorem read_over {e : Expr} (mentioned : ∀ s ∈ e.occurrences, s ∈ instruction.mentioned)
    (k : Nat) : ∀ s ∈ (read reach.before loc e k).1.occurrences, P s := by
  intro s occurs
  rcases Expr.mem_occurrences_fillNondets_rename occurs with ⟨t, member, rfl⟩ | ⟨k, sort, member⟩
  · exact regular.image_over here found arrives (mentioned t member)
  · rw [List.mem_singleton.mp member]
    exact opened k sort

theorem readAll_over {es : List Expr}
    (mentioned : ∀ s ∈ Expr.occurrencesAll es, s ∈ instruction.mentioned) (k : Nat) :
    ∀ s ∈ Expr.occurrencesAll (readAll reach.before loc es k).1, P s := by
  induction es generalizing k with
  | nil => exact fun s occurs => absurd occurs List.not_mem_nil
  | cons e es ih =>
    simp only [Expr.occurrencesAll, List.mem_append] at mentioned
    intro s occurs
    rcases List.mem_append.mp occurs with first | rest
    · exact regular.read_over here found arrives opened (fun t member => mentioned t (.inl member))
        k s first
    · exact ih (fun t member => mentioned t (.inr member)) _ s rest

end

/-- The effect of an instruction reads versions that reach it and its own open values. -/
theorem effect_over {P : Symbol → Prop} {loc : Nat} {instruction : Instruction}
    (here : frame.body[loc]? = some instruction)
    (arrives : ∀ object ∈ frame.objects, P ((frame.definitionBefore loc object).version object))
    (opened : ∀ k sort, P ((Name.nondet loc k).symbol sort)) :
    (∀ e ∈ (frame.effectAt loc instruction).equalities, ∀ s ∈ e.rhs.occurrences,
      P s) ∧
    (∀ s ∈ Expr.occurrencesAll (frame.effectAt loc instruction).assertions, P s) ∧
    ∀ call ∈ (frame.effectAt loc instruction).calls,
      ∀ s ∈ Expr.occurrencesAll call.arguments ++ call.globalsIn, P s := by
  have inside := (List.getElem?_eq_some_iff.mp here).1
  obtain ⟨reach, found⟩ := regular.exists_reach inside
  have reads := fun e k => regular.read_over here found arrives opened (e := e) (k := k)
  have none : ∀ s ∈ Expr.occurrencesAll [], P s := List.forall_mem_nil _
  have branch : ∀ condition : Expr, (∀ s ∈ condition.occurrences, s ∈ instruction.mentioned) →
      (∀ e ∈ (effect.branch reach.before loc condition).equalities, ∀ s ∈ e.rhs.occurrences,
        P s) ∧
      (∀ s ∈ Expr.occurrencesAll (effect.branch reach.before loc condition).assertions,
        P s) ∧
      ∀ call ∈ (effect.branch reach.before loc condition).calls,
        ∀ s ∈ Expr.occurrencesAll call.arguments ++ call.globalsIn, P s := by
    intro condition mentioned
    unfold effect.branch
    split
    · exact ⟨List.forall_mem_nil _, none, List.forall_mem_nil _⟩
    · exact ⟨by simpa using reads condition 0 mentioned, none, List.forall_mem_nil _⟩
  rw [effectAt, found]
  cases instruction with
  | decl object =>
    refine ⟨?_, none, List.forall_mem_nil _⟩
    simp only [effect, List.mem_singleton, forall_eq, Expr.occurrences]
    exact opened 0 object.sort
  | assign target value =>
    refine ⟨?_, none, List.forall_mem_nil _⟩
    simp only [effect, List.mem_singleton, forall_eq]
    exact reads value 0 fun s occurs => List.mem_append_left _ occurs
  | goto condition target => exact branch condition fun s occurs => List.mem_append_left _ occurs
  | assume condition => exact branch condition fun s occurs => List.mem_append_left _ occurs
  | assert condition =>
    refine ⟨List.forall_mem_nil _, ?_, List.forall_mem_nil _⟩
    simp only [effect, Expr.occurrencesAll, List.append_nil]
    exact reads condition 0 fun s occurs => List.mem_append_left _ occurs
  | ret value =>
    cases value with
    | none => exact ⟨List.forall_mem_nil _, none, List.forall_mem_nil _⟩
    | some value =>
      refine ⟨?_, none, List.forall_mem_nil _⟩
      simp only [effect, List.mem_singleton, forall_eq]
      exact reads value 0 fun s occurs => List.mem_append_left _ occurs
  | call result callee arguments =>
    refine ⟨List.forall_mem_nil _, none, ?_⟩
    simp only [effect, List.mem_singleton, forall_eq, List.mem_append]
    rintro s (argument | isGlobal)
    · exact regular.readAll_over here found arrives opened
        (fun t occurs => List.mem_append_left _ occurs) 0 s argument
    · obtain ⟨global, isGlobal, version⟩ := List.mem_filterMap.mp isGlobal
      rw [regular.globals_eq] at isGlobal
      have isObject := List.mem_of_mem_filter isGlobal
      rw [Definitions.version?, regular.find?_before found isObject] at version
      cases version
      exact arrives global isObject
  | _ => exact ⟨List.forall_mem_nil _, none, List.forall_mem_nil _⟩

theorem edge_reads {loc pred : Nat} (isPred : pred ∈ frame.flow.forwardPreds loc) :
    (frame.edgeGuard pred loc).TermOver (frame.Reads loc) .bool := by
  obtain ⟨earlier, inside⟩ := regular.pred_lt isPred
  exact (edgeGuard_made (Nat.lt_trans earlier inside) loc).mono fun _ => .made

/-- What an object may be at a location is read from what arrives. -/
theorem alternatives_reads {loc : Nat} {object : Symbol} (isObject : object ∈ frame.objects) :
    ∀ alternative ∈ frame.alternatives object loc,
      alternative.1.TermOver (frame.Reads loc) .bool ∧
        alternative.2.TermOver (frame.Reads loc) object.sort := by
  refine regular.alternatives_over (fun _ => .select) (fun _ => regular.edge_reads) isObject
    (fun _ isBack => .back isBack object) (.made (.version isObject .input)) ?_
  intro pred isPred
  obtain ⟨earlier, inside⟩ := regular.pred_lt isPred
  exact .made (.version isObject
    (regular.originates_after (Nat.lt_trans earlier inside) isObject))

theorem guard_reads (loc : Nat) :
    (frame.guardEquality loc).rhs.TermOver (frame.Reads loc) .bool :=
  .disj (reached_over (fun _ => .select) fun _ => regular.edge_reads)

theorem effect_reads {loc : Nat} {instruction : Instruction}
    (here : frame.body[loc]? = some instruction) :
    (∀ e ∈ (frame.effectAt loc instruction).equalities, ∀ s ∈ e.rhs.occurrences,
      frame.Reads loc s) ∧
    (∀ s ∈ Expr.occurrencesAll (frame.effectAt loc instruction).assertions, frame.Reads loc s) ∧
    ∀ call ∈ (frame.effectAt loc instruction).calls,
      ∀ s ∈ Expr.occurrencesAll call.arguments ++ call.globalsIn, frame.Reads loc s := by
  have inside := (List.getElem?_eq_some_iff.mp here).1
  refine regular.effect_over here (fun object isObject => ?_) .opened
  exact .made (.version isObject (regular.originates_before inside isObject))

/-- The node of a location reads what it may read. -/
theorem reads_of_mem {loc : Nat} {instruction : Instruction}
    (here : frame.body[loc]? = some instruction) {e : Equality}
    (member : e ∈ (frame.nodeAt loc instruction).equalities) {s : Symbol}
    (occurs : s ∈ e.rhs.occurrences) : frame.Reads loc s := by
  rcases List.mem_append.mp member with merge | rest
  · obtain ⟨object, isMerged, value, chosen, rfl⟩ := mem_mergeEqualities.mp merge
    have inside := (List.getElem?_eq_some_iff.mp here).1
    have isObject := ((regular.mem_mergedObjects inside).mp isMerged).1
    exact (chooseFirst_term chosen (regular.alternatives_reads isObject)).within s occurs
  · rcases List.mem_cons.mp rest with rfl | effect
    · exact (regular.guard_reads loc).within s occurs
    · exact (regular.effect_reads here).1 e effect s occurs

end Regular

end Frame

end TemplateAnalysis
