import Mathlib.Data.List.Induction
import TemplateAnalysis.Ssa.Build
import TemplateAnalysis.Proofs.Nesting

/-! # Frames of well-formed procedures

The objects of a well-formed procedure are exactly the symbols it mentions, one for each name, and
all of them have proper names. A frame that is built from such a procedure carries these facts.
-/

namespace TemplateAnalysis

namespace NameMap

variable {α : Type}

theorem find?_eq_none_iff {m : NameMap α} {name : String} :
    m.find? name = none ↔ name ∉ m.names := by
  simp only [find?, List.lookup_eq_none_iff, names, List.mem_map, Prod.exists, exists_and_right,
    exists_eq_right, not_exists]
  constructor
  · intro absent a member
    simpa using absent _ member
  · intro absent entry member
    simp only [bne_iff_ne, ne_eq]
    rintro rfl
    exact absent entry.2 member

/-- A new entry is put somewhere among the others. -/
theorem insert_perm {m : NameMap α} {name : String} (a : α) (fresh : name ∉ m.names) :
    (m.insert name a).Perm ((name, a) :: m) := by
  induction m with
  | nil => exact .refl _
  | cons entry rest ih =>
    obtain ⟨key, b⟩ := entry
    simp only [names, List.map_cons, List.mem_cons, not_or] at fresh
    simp only [insert, fresh.1, if_false]
    split
    · exact .refl _
    · exact (List.Perm.cons _ (ih fresh.2)).trans (.swap _ _ _)

end NameMap

/-- The sorts of the names of some symbols, each the sort of its first mention. -/
private def sortsOf (symbols : List Symbol) : NameMap ValueSort :=
  symbols.foldl (fun sorts s => NameMap.insertNew s.name s.sort sorts) []

private theorem sortsOf_concat (symbols : List Symbol) (s : Symbol) :
    sortsOf (symbols ++ [s]) = (sortsOf symbols).insertNew s.name s.sort := by
  simp [sortsOf]

private theorem sortsOf_cases (symbols : List Symbol) (s : Symbol) :
    (s.name ∈ (sortsOf symbols).names ∧ sortsOf (symbols ++ [s]) = sortsOf symbols) ∨
      (s.name ∉ (sortsOf symbols).names ∧
        (sortsOf (symbols ++ [s])).Perm ((s.name, s.sort) :: sortsOf symbols)) := by
  rw [sortsOf_concat, NameMap.insertNew, NameMap.contains]
  by_cases fresh : s.name ∈ (sortsOf symbols).names
  · left
    have held : (NameMap.find? (sortsOf symbols) s.name).isSome = true := by
      rw [Option.isSome_iff_ne_none]
      exact fun absent => NameMap.find?_eq_none_iff.mp absent fresh
    simp [fresh, held]
  · right
    rw [NameMap.find?_eq_none_iff.mpr fresh]
    exact ⟨fresh, NameMap.insert_perm _ fresh⟩

private theorem sortsOf_names_nodup (symbols : List Symbol) : (sortsOf symbols).names.Nodup := by
  induction symbols using List.reverseRecOn with
  | nil => exact List.nodup_nil
  | append_singleton symbols s ih =>
    rcases sortsOf_cases symbols s with ⟨-, same⟩ | ⟨fresh, perm⟩
    · rw [same]
      exact ih
    · have names := (perm.map Prod.fst).nodup_iff
      exact names.mpr (List.nodup_cons.mpr ⟨fresh, ih⟩)

private theorem mem_of_mem_sortsOf {symbols : List Symbol} {name : String} {sort : ValueSort}
    (entry : (name, sort) ∈ sortsOf symbols) : ⟨name, sort⟩ ∈ symbols := by
  induction symbols using List.reverseRecOn with
  | nil => cases entry
  | append_singleton symbols s ih =>
    rcases sortsOf_cases symbols s with ⟨-, same⟩ | ⟨-, perm⟩
    · rw [same] at entry
      exact List.mem_append_left _ (ih entry)
    · rcases List.mem_cons.mp (perm.mem_iff.mp entry) with here | earlier
      · cases here
        simp
      · exact List.mem_append_left _ (ih earlier)

private theorem name_mem_sortsOf {symbols : List Symbol} {s : Symbol} (member : s ∈ symbols) :
    s.name ∈ (sortsOf symbols).names := by
  induction symbols using List.reverseRecOn with
  | nil => cases member
  | append_singleton symbols t ih =>
    rcases sortsOf_cases symbols t with ⟨known, same⟩ | ⟨-, perm⟩
    · rw [same]
      rcases List.mem_append.mp member with earlier | here
      · exact ih earlier
      · rw [List.mem_singleton.mp here]
        exact known
    · refine (perm.map Prod.fst).mem_iff.mpr ?_
      rcases List.mem_append.mp member with earlier | here
      · exact List.mem_cons_of_mem _ (ih earlier)
      · rw [List.mem_singleton.mp here]
        exact List.mem_cons_self

/-- Every symbol of a procedure, what it returns included. -/
def Procedure.symbols (procedure : Procedure) (table : SymbolTable) : List Symbol :=
  procedure.mentioned table ++ procedure.body.flatMap Instruction.returned

/-- The symbols that an instruction contributes to the objects. -/
private def contributed (instruction : Instruction) : List Symbol :=
  instruction.reads ++ instruction.writes.toList ++
    match instruction with
    | .dead object => [object]
    | .ret (some value) => [⟨returnValue, value.sort⟩]
    | _ => []

private theorem mem_contributed {instruction : Instruction} {s : Symbol} :
    s ∈ contributed instruction ↔ s ∈ instruction.mentioned ∨ s ∈ instruction.returned := by
  cases instruction with
  | ret value =>
    cases value <;> simp [contributed, Instruction.mentioned, Instruction.returned, or_assoc]
  | dead object =>
    simp [contributed, Instruction.mentioned, Instruction.returned, Instruction.reads,
      Instruction.writes]
  | _ => simp [contributed, Instruction.mentioned, Instruction.returned]

/-- The symbols from which the objects of a procedure are collected. -/
private def collected (procedure : Procedure) (table : SymbolTable) : List Symbol :=
  procedure.params ++ table.globals ++ procedure.body.flatMap contributed

private theorem mem_collected {procedure : Procedure} {table : SymbolTable} {s : Symbol} :
    s ∈ collected procedure table ↔ s ∈ procedure.symbols table := by
  simp only [collected, Procedure.symbols, Procedure.mentioned, List.mem_append, List.mem_flatMap,
    mem_contributed, and_or_left, exists_or, or_assoc]

/-- The objects of a procedure are among its symbols. -/
theorem mem_symbols_of_mem_objectsOf {procedure : Procedure} {table : SymbolTable} {s : Symbol}
    (object : s ∈ objectsOf procedure table) : s ∈ procedure.symbols table := by
  obtain ⟨⟨name, sort⟩, entry, rfl⟩ := List.mem_map.mp object
  exact mem_collected.mp (mem_of_mem_sortsOf entry)

/-- Every symbol of a procedure has an object of its name. -/
theorem exists_mem_objectsOf {procedure : Procedure} {table : SymbolTable} {s : Symbol}
    (member : s ∈ procedure.symbols table) :
    ∃ object ∈ objectsOf procedure table, object.name = s.name := by
  obtain ⟨⟨name, sort⟩, entry, same⟩ :=
    List.mem_map.mp (name_mem_sortsOf (mem_collected.mpr member))
  exact ⟨⟨name, sort⟩, List.mem_map_of_mem entry, same⟩

theorem names_nodup_objectsOf {procedure : Procedure} {table : SymbolTable} :
    ((objectsOf procedure table).map (·.name)).Nodup := by
  have names := sortsOf_names_nodup (collected procedure table)
  change (((sortsOf (collected procedure table)).map _).map _).Nodup
  rw [List.map_map]
  exact names

/-- If a procedure calls its objects by identifiers, all its symbols have proper names. -/
theorem isObjectName_of_mem_symbols {procedure : Procedure} {table : SymbolTable}
    (identifiers : ∀ s ∈ procedure.mentioned table, IsIdentifier s.name) {s : Symbol}
    (member : s ∈ procedure.symbols table) : IsObjectName s.name := by
  rcases List.mem_append.mp member with own | returned
  · exact .inl (identifiers s own)
  · obtain ⟨instruction, -, here⟩ := List.mem_flatMap.mp returned
    cases instruction with
    | ret value =>
      cases value with
      | none => cases here
      | some value =>
        rw [List.mem_singleton.mp here]
        exact .inr rfl
    | _ => cases here

/-- The objects of a well-formed procedure are exactly its symbols. -/
theorem Procedure.WellFormed.mem_objectsOf {procedure : Procedure} {table : SymbolTable}
    (wellFormed : procedure.WellFormed table) {s : Symbol} :
    s ∈ objectsOf procedure table ↔ s ∈ procedure.symbols table := by
  refine ⟨mem_symbols_of_mem_objectsOf, fun member => ?_⟩
  obtain ⟨object, isObject, same⟩ := exists_mem_objectsOf member
  have first := mem_symbols_of_mem_objectsOf isObject
  rwa [wellFormed.oneSort _ first _ member same] at isObject

namespace Frame

/-- What is known about the frame of every accepted procedure. -/
structure Regular (frame : Frame) (table : SymbolTable) : Prop where
  flow_eq : frame.flow = Flow.ofBody frame.body
  accepted : Accepted frame.body
  reaching_eq : frame.reaching = Reach.all frame.body frame.flow frame.objects frame.globals
  globals_eq : frame.globals = frame.objects.filter fun object => table.isStatic object.name
  names_nodup : (frame.objects.map (·.name)).Nodup
  exists_object : ∀ instruction ∈ frame.body, ∀ s ∈ instruction.mentioned ++ instruction.returned,
    ∃ object ∈ frame.objects, object.name = s.name

/-- What is known about the frame of a well-formed procedure. -/
structure Proper (frame : Frame) (table : SymbolTable) : Prop extends Regular frame table where
  isObjectName : ∀ object ∈ frame.objects, IsObjectName object.name
  mentioned : ∀ instruction ∈ frame.body, ∀ s ∈ instruction.mentioned ++ instruction.returned,
    s ∈ frame.objects
  wellSorted : ∀ instruction ∈ frame.body, instruction.isWellSorted = true

variable {function : String} {procedure : Procedure} {table : SymbolTable} {frame : Frame}

/-- What an instruction mentions or returns is among the symbols of the procedure. -/
theorem mem_symbols_of_mem_body {instruction : Instruction} (member : instruction ∈ procedure.body)
    {s : Symbol} (mentioned : s ∈ instruction.mentioned ++ instruction.returned) :
    s ∈ procedure.symbols table := by
  refine List.mem_append.mpr ?_
  rcases List.mem_append.mp mentioned with own | returned
  · exact .inl (List.mem_append_right _ (List.mem_flatMap.mpr ⟨instruction, member, own⟩))
  · exact .inr (List.mem_flatMap.mpr ⟨instruction, member, returned⟩)

theorem regular_of_build (built : build function procedure table = .ok frame) :
    frame.Regular table ∧ frame.body = procedure.body ∧
      frame.objects = objectsOf procedure table := by
  unfold build at built
  split at built
  · cases built
  · next flow checked =>
    obtain ⟨rfl, accepted⟩ := Flow.accepted_of_check checked
    cases built
    refine ⟨⟨rfl, accepted, rfl, rfl, names_nodup_objectsOf, ?_⟩, rfl, rfl⟩
    intro instruction member s mentioned
    exact exists_mem_objectsOf (mem_symbols_of_mem_body member mentioned)

theorem proper_of_build (built : build function procedure table = .ok frame)
    (wellFormed : procedure.WellFormed table) :
    frame.Proper table ∧ frame.body = procedure.body ∧
      frame.objects = objectsOf procedure table := by
  obtain ⟨regular, body, objects⟩ := regular_of_build built
  refine ⟨⟨regular, ?_, ?_, ?_⟩, body, objects⟩
  · intro object isObject
    rw [objects] at isObject
    exact isObjectName_of_mem_symbols wellFormed.identifiers (mem_symbols_of_mem_objectsOf isObject)
  · intro instruction member s mentioned
    rw [body] at member
    rw [objects]
    exact wellFormed.mem_objectsOf.mpr (mem_symbols_of_mem_body member mentioned)
  · rw [body]
    exact wellFormed.wellSorted

theorem length_noteLaterAssertions (nodes : List Node) :
    (noteLaterAssertions nodes).length = nodes.length := by
  induction nodes with
  | nil => rfl
  | cons node rest ih => exact congrArg (· + 1) ih

theorem getElem?_noteLaterAssertions {nodes : List Node} {i : Nat} {node : Node}
    (found : nodes[i]? = some node) :
    ∃ later, (noteLaterAssertions nodes)[i]? = some { node with laterAssertions := later } := by
  induction nodes generalizing i with
  | nil => cases found
  | cons first rest ih =>
    cases i with
    | zero =>
      cases found
      exact ⟨_, rfl⟩
    | succ i => exact ih found

@[simp] theorem length_nodes (frame : Frame) (params : List Symbol) :
    (frame.complete params).nodes.length = frame.body.length := by
  simp [complete, length_noteLaterAssertions]

/-- The nodes of the form are those of the locations. -/
theorem getElem?_nodes {loc : Nat} {instruction : Instruction}
    (here : frame.body[loc]? = some instruction) (params : List Symbol) :
    ∃ later, (frame.complete params).nodes[loc]? =
      some { frame.nodeAt loc instruction with laterAssertions := later } := by
  apply getElem?_noteLaterAssertions
  simp [here]

namespace Regular

variable (regular : frame.Regular table) {head loc : Nat}
include regular

theorem mem_backEdges {b : Nat} :
    b ∈ frame.flow.backEdges head ↔ (b, head) ∈ Flow.edges frame.body ∧ head ≤ b := by
  rw [regular.flow_eq]
  exact Flow.mem_backEdges

theorem mem_enclosing : head ∈ frame.flow.enclosing loc ↔
    frame.flow.isHead head = true ∧ frame.flow.inExtent head loc = true := by
  rw [regular.flow_eq]
  exact regular.accepted.mem_enclosing

theorem enclosing_of_standsAlone (alone : frame.flow.StandsAlone head)
    (within : frame.flow.inExtent head loc = true) : frame.flow.enclosing loc = [head] := by
  rw [regular.flow_eq] at alone within ⊢
  exact regular.accepted.enclosing_of_standsAlone alone within

variable (isHead : frame.flow.isHead head = true)
include isHead

theorem extentEnd_lt :
    head ≤ frame.flow.extentEnd head ∧ frame.flow.extentEnd head < frame.body.length := by
  rw [regular.flow_eq] at isHead ⊢
  exact regular.accepted.extentEnd_lt isHead

theorem inExtent_self : frame.flow.inExtent head head = true :=
  Flow.inExtent_iff.mpr ⟨Nat.le_refl head, (regular.extentEnd_lt isHead).1⟩

theorem enclosing_concat : ∃ front, frame.flow.enclosing head = front ++ [head] := by
  rw [regular.flow_eq] at isHead ⊢
  exact regular.accepted.enclosing_concat isHead

end Regular

end Frame

end TemplateAnalysis
