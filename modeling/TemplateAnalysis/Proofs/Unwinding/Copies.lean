import TemplateAnalysis.Proofs.Ssa.Models
import TemplateAnalysis.Proofs.Unwinding.Introduced
import TemplateAnalysis.Proofs.Unwinding.Series

/-! # Copied nodes

The copy of a node defines copies of symbols that its location introduces. All of them stand under
the counters of the loops around the location, with zeros for the loops inside the unwound one.
-/

namespace TemplateAnalysis

private theorem map_filterMap_eq {α β γ : Type} {xs : List α} {f : α → Option β} {g : β → γ}
    {h : α → γ} (all : ∀ x ∈ xs, (f x).map g = some (h x)) : (xs.filterMap f).map g = xs.map h := by
  rw [List.map_filterMap, List.filterMap_congr all]
  exact congrFun List.filterMap_eq_map xs

/-- The symbols that a node defines. -/
def Node.defined (node : Node) : List Symbol := node.equalities.map (·.lhs)

theorem Frame.guard_mem_nodeAt (frame : Frame) (loc : Nat) (instruction : Instruction) :
    (Name.guard loc).bool ∈ (frame.nodeAt loc instruction).defined :=
  List.mem_map.mpr ⟨frame.guardEquality loc, by simp [nodeAt], rfl⟩

/-- The symbols for what arrives over the back edges of a head. -/
def Frame.arrivals (frame : Frame) (head : Nat) : List Symbol :=
  (frame.flow.backEdges head).flatMap fun b =>
    loopSelect b :: (frame.mergedObjects head).map fun object => loopBack object b

/-- The literal of an unwinding tells its head and its counters. -/
theorem Odometer.eq_of_enable_eq {head head' : Nat} {levels levels' : List Nat}
    (unwound : suffixOf levels levels.length ≠ "")
    (same : (Name.enable head (suffixOf levels levels.length)).bool =
      (Name.enable head' (suffixOf levels' levels'.length)).bool) :
    head = head' ∧ levels = levels' := by
  obtain ⟨heads, suffixes⟩ := Name.enable.inj (Name.eq_of_symbol_eq (Name.isProper_of_none rfl)
    (Name.isProper_of_none rfl) same).1
  have padded := padded_eq_of_suffixOf_eq unwound suffixes
  rw [padded_length, padded_length] at padded
  exact ⟨heads, padded⟩

namespace Copying

variable {copying : Copying}

/-- The nodes of a copy are those of the locations in the extent. -/
theorem mem_nodes {node : Node} {first : Nat} :
    node ∈ copying.nodes first ↔ ∃ (loc : Nat) (origin : Node),
      copying.ssa.nodes[loc]? = some origin ∧
      copying.ssa.flow.inExtent copying.head loc = true ∧
      node = copying.node copying.previous copying.literal first origin := by
  rw [nodes, List.mem_map]
  simp only [Flow.inExtent_iff, List.mem_iff_getElem?, List.getElem?_take, List.getElem?_drop,
    Option.ite_none_right_eq_some]
  constructor
  · rintro ⟨origin, ⟨i, within, found⟩, rfl⟩
    exact ⟨copying.head + i, origin, found, by omega, rfl⟩
  · rintro ⟨loc, origin, found, within, rfl⟩
    refine ⟨origin, ⟨loc - copying.head, by omega, ?_⟩, rfl⟩
    rwa [Nat.add_sub_cancel' within.1]

/-- The nodes of a copy are in the order in which they were. -/
theorem nodes_pairwise {R : Nat → Nat → Prop}
    (ordered : copying.ssa.nodes.Pairwise fun node other => R node.location other.location)
    (first : Nat) : (copying.nodes first).Pairwise fun node other =>
      R node.location other.location :=
  List.pairwise_map.mpr
    (ordered.sublist ((List.take_sublist _ _).trans (List.drop_sublist _ _)))

/-- A symbol that is introduced in the extent is copied under the counters of the loops around its
location. -/
theorem symbol_of_inExtent {s : Symbol} {loc : Nat}
    (defined : copying.ssa.definedAt? s = some loc)
    (within : copying.ssa.flow.inExtent copying.head loc = true) : copying.symbol s =
      s.unwound (Odometer.suffixOf copying.levels (copying.ssa.flow.depth loc)) := by
  simp [symbol, defined, within]

/-- The copy of a symbol is the symbol under some suffix. -/
theorem exists_unwound (copying : Copying) (s : Symbol) :
    ∃ suffix : String, '#' ∉ suffix.toList ∧ copying.symbol s = s.unwound suffix := by
  unfold symbol
  split
  · exact ⟨"", by simp, s.unwound_empty.symm⟩
  · exact ⟨_, Odometer.not_mem_suffixOf (by decide) (by decide) _ _, rfl⟩

@[simp] theorem sort_symbol (copying : Copying) (s : Symbol) :
    (copying.symbol s).sort = s.sort := by
  obtain ⟨suffix, -, same⟩ := copying.exists_unwound s
  rw [same, Symbol.sort_unwound]

/-- The symbols whose copies the copied node of a location defines. -/
def defined (copying : Copying) (loc : Nat) (instruction : Instruction) : List Symbol :=
  let own := (copying.ssa.nodeAt loc instruction).equalities.map (·.lhs)
  if loc = copying.head then
    copying.ssa.arrivals loc ++ copying.rebuilt ++ own.filter fun s => !copying.rebuilt.contains s
  else own

section

variable {table : SymbolTable} {frame : Frame} (regular : frame.Regular table)
  {params : List Symbol} (base : copying.ssa = frame.complete params)
  (isHead : frame.flow.isHead copying.head = true)
include regular base isHead

theorem map_lhs_headEqualities (previous : Copying) :
    (copying.headEqualities previous).map (·.lhs) =
      (frame.arrivals copying.head ++ copying.rebuilt).map copying.symbol := by
  obtain ⟨ssa, head, levels⟩ := copying
  obtain rfl : ssa = frame.complete params := base
  have arriving : ∀ b ∈ frame.flow.backEdges head, ∀ object ∈ frame.mergedObjects head,
      frame.readAfter? object.name b = some ((frame.definitionAfter b object).version object) := by
    intro b isBack object isMerged
    have edge := (regular.mem_backEdges.mp isBack).1
    have isObject := ((regular.mem_mergedObjects (regular.accepted.edge_lt edge)).mp isMerged).1
    exact regular.readAfter?_eq (Accepted.source_lt edge) isObject
  have chosen : ∀ alternative : Nat → Expr × Expr,
      ∃ value, chooseFirst ((frame.flow.backEdges head).map alternative) = some value := by
    intro alternative
    obtain ⟨b, isBack⟩ := (Flow.isHead_iff _).mp isHead
    exact Frame.exists_chooseFirst (List.ne_nil_of_mem (List.mem_map_of_mem isBack))
  simp only [headEqualities, Frame.arrivals, rebuilt, List.map_append, List.map_cons, List.map_map,
    List.map_flatMap]
  congr 1
  · refine List.flatMap_congr fun b isBack => congrArg _ ?_
    refine map_filterMap_eq fun object isMerged => ?_
    have found : (frame.complete params).readAfter? object.name b = _ :=
      arriving b isBack object isMerged
    rw [found]
    rfl
  · refine congrArg _ (map_filterMap_eq fun object isMerged => ?_)
    obtain ⟨value, isChosen⟩ := chosen _
    have found : chooseFirst ((frame.complete params).flow.backEdges head |>.map _) = _ := isChosen
    rw [found]
    rfl

theorem map_lhs_node (previous : Copying) (enable : Symbol) (first loc : Nat)
    (instruction : Instruction) (later : List Expr) :
    (copying.node previous enable first
      { frame.nodeAt loc instruction with laterAssertions := later }).equalities.map (·.lhs) =
      (copying.defined loc instruction).map copying.symbol := by
  have same : copying.ssa.toFrame = frame := by rw [base]; rfl
  have copied : ∀ es : List Equality, (es.map copying.equality).map (·.lhs) =
      (es.map (·.lhs)).map copying.symbol := by
    intro es
    simp [equality]
  have location : (frame.nodeAt loc instruction).location = loc := rfl
  simp only [node, defined, same, location]
  split
  · next atHead =>
    rw [List.map_append, map_lhs_headEqualities regular base isHead, copied, ← List.map_append,
      List.filter_map, atHead]
    rfl
  · exact copied _

omit isHead in
theorem symbol_of_mem_introduced {loc : Nat} {instruction : Instruction}
    (here : frame.body[loc]? = some instruction)
    (within : frame.flow.inExtent copying.head loc = true) {s : Symbol}
    (member : s.name ∈ frame.introduced loc instruction) : copying.symbol s =
      s.unwound (Odometer.suffixOf copying.levels (frame.flow.depth loc)) := by
  have defined : copying.ssa.definedAt? s = some loc := by
    rw [base]
    exact regular.definedAt?_eq_some_iff.mpr ⟨instruction, here, member⟩
  have copied := symbol_of_inExtent defined
  rw [base] at copied
  exact copied within

omit regular in
theorem mem_introduced_of_mem_defined {loc : Nat} {instruction : Instruction} {s : Symbol}
    (member : s ∈ copying.defined loc instruction) : s.name ∈ frame.introduced loc instruction := by
  have same : copying.ssa.toFrame = frame := by rw [base]; rfl
  have own : ∀ {s}, s ∈ (frame.nodeAt loc instruction).equalities.map (·.lhs) →
      s.name ∈ frame.introduced loc instruction := by
    intro s isOwn
    obtain ⟨e, isEquality, rfl⟩ := List.mem_map.mp isOwn
    simp only [Frame.introduced, List.mem_append]
    exact .inl (.inl (.inl (List.mem_map_of_mem isEquality)))
  simp only [defined, same] at member
  split at member
  · next atHead =>
    rw [List.mem_append, List.mem_append] at member
    rcases member with (arrives | again) | rest
    · obtain ⟨b, isBack, here⟩ := List.mem_flatMap.mp arrives
      have names := List.mem_map_of_mem (f := Symbol.name) here
      rw [List.map_cons, List.map_map] at names
      exact List.mem_append_right _ (List.mem_flatMap.mpr ⟨b, isBack, names⟩)
    · refine own ?_
      simp only [rebuilt, same, ← atHead, List.mem_cons, List.mem_map] at again
      simp only [Frame.nodeAt, List.map_append, List.map_cons, List.mem_append, List.mem_cons]
      rcases again with rfl | ⟨object, isMerged, rfl⟩
      · exact .inr (.inl rfl)
      · obtain ⟨b, isBack⟩ := (Flow.isHead_iff _).mp (atHead ▸ isHead)
        have nonempty : frame.alternatives object loc ≠ [] := by
          simp [Frame.alternatives, List.ne_nil_of_mem isBack]
        obtain ⟨value, chosen⟩ := Frame.exists_chooseFirst nonempty
        exact .inl (List.mem_map_of_mem
          (Frame.mem_mergeEqualities.mpr ⟨object, isMerged, value, chosen, rfl⟩))
    · exact own (List.mem_of_mem_filter rest)
  · exact own member

end

end Copying

namespace Frame

variable {frame : Frame} {params : List Symbol}

/-- The nodes of the form stand for the locations of the body. -/
theorem exists_of_getElem?_nodes {loc : Nat} {node : Node}
    (found : (frame.complete params).nodes[loc]? = some node) :
    ∃ instruction later, frame.body[loc]? = some instruction ∧
      node = { frame.nodeAt loc instruction with laterAssertions := later } := by
  have inside := (List.getElem?_eq_some_iff.mp found).1
  rw [length_nodes] at inside
  obtain ⟨later, same⟩ := getElem?_nodes (List.getElem?_eq_getElem inside) params
  rw [found] at same
  exact ⟨_, later, List.getElem?_eq_getElem inside, Option.some.inj same⟩

/-- The nodes of the form are in the order of their locations. -/
theorem nodes_pairwise (frame : Frame) (params : List Symbol) :
    (frame.complete params).nodes.Pairwise fun node other => node.location < other.location := by
  rw [List.pairwise_iff_getElem]
  intro i j inside inside' before
  obtain ⟨instruction, later, -, first⟩ :=
    exists_of_getElem?_nodes (List.getElem?_eq_getElem inside)
  obtain ⟨instruction', later', -, second⟩ :=
    exists_of_getElem?_nodes (List.getElem?_eq_getElem inside')
  rw [first, second]
  exact before

end Frame

namespace Ssa.Series

variable {table : SymbolTable} {frame : Frame} (regular : frame.Regular table)
  {params : List Symbol} {copies : List Copying} (series : (frame.complete params).Series copies)
  {copying : Copying} (member : copying ∈ copies) {loc : Nat}
  (within : frame.flow.inExtent copying.head loc = true)

include series member in
theorem trimmed_levels : Odometer.trimmed copying.levels = copying.levels := by
  obtain ⟨outer, level, levels⟩ := series.counted copying member
  rw [levels]
  exact Odometer.trimmed_concat outer (Nat.succ_ne_zero level)

include series member in
/-- From its own depth on, an unwinding has a suffix. -/
theorem suffixOf_ne_empty_of_le {depth : Nat} (fits : copying.levels.length ≤ depth) :
    Odometer.suffixOf copying.levels depth ≠ "" := by
  obtain ⟨outer, level, levels⟩ := series.counted copying member
  rw [levels] at fits ⊢
  exact Odometer.suffixOf_concat_ne_empty fits

include series member in
theorem suffix_ne_empty : Odometer.suffixOf copying.levels copying.levels.length ≠ "" :=
  series.suffixOf_ne_empty_of_le member (Nat.le_refl _)

include series member in
theorem eq_of_literal_eq {head : Nat} {levels : List Nat} (same : copying.literal =
    (Name.enable head (Odometer.suffixOf levels levels.length)).bool) :
    copying.head = head ∧ copying.levels = levels :=
  Odometer.eq_of_enable_eq (series.suffix_ne_empty member) same

include regular series member within

theorem length_levels_le : copying.levels.length ≤ frame.flow.depth loc := by
  have isHead : frame.flow.isHead copying.head = true := series.isHead copying member
  rw [series.depth copying member]
  change frame.flow.depth copying.head ≤ frame.flow.depth loc
  rw [regular.flow_eq] at isHead within ⊢
  exact regular.accepted.depth_le_of_inExtent isHead within

/-- The symbols of a copy carry a suffix. -/
theorem suffixOf_ne_empty : Odometer.suffixOf copying.levels (frame.flow.depth loc) ≠ "" :=
  series.suffixOf_ne_empty_of_le member (length_levels_le regular series member within)

/-- At a location, the suffix tells the copy. -/
theorem eq_of_suffixOf_eq {other : Copying} (isOther : other ∈ copies)
    (within' : frame.flow.inExtent other.head loc = true)
    (same : Odometer.suffixOf copying.levels (frame.flow.depth loc) =
      Odometer.suffixOf other.levels (frame.flow.depth loc)) : copying = other := by
  have levels := Odometer.trimmed_eq_of_suffixOf_eq
    (length_levels_le regular series member within)
    (length_levels_le regular series isOther within') same
  rw [series.trimmed_levels member, series.trimmed_levels isOther] at levels
  have depths : frame.flow.depth copying.head = frame.flow.depth other.head := by
    have first := series.depth copying member
    rw [levels, series.depth other isOther] at first
    exact first.symm
  have isHead : frame.flow.isHead copying.head = true := series.isHead copying member
  have isHead' : frame.flow.isHead other.head = true := series.isHead other isOther
  have heads : copying.head = other.head := by
    rw [regular.flow_eq] at isHead isHead' within within' depths
    exact regular.accepted.eq_of_depth_eq isHead isHead' within within' depths
  have bases := (series.ssa_eq copying member).trans (series.ssa_eq other isOther).symm
  cases copying
  cases other
  simp_all

omit within in
/-- A copied node defines copies of symbols of its location, under the counters of its copy. -/
theorem exists_defined {node : Node} {first : Nat} (isNode : node ∈ copying.nodes first) :
    ∃ instruction, frame.body[node.location]? = some instruction ∧
      frame.flow.inExtent copying.head node.location = true ∧
      node.enabling = .var copying.literal ∧
      node.suffix = Odometer.suffixOf copying.levels copying.levels.length ∧
      (∀ s ∈ copying.defined node.location instruction,
        s.name ∈ frame.introduced node.location instruction) ∧
      node.defined = (copying.defined node.location instruction).map
        (·.unwound (Odometer.suffixOf copying.levels (frame.flow.depth node.location))) := by
  have base := series.ssa_eq copying member
  have isHead := series.isHead copying member
  obtain ⟨loc, origin, found, within, rfl⟩ := Copying.mem_nodes.mp isNode
  rw [base] at found within
  obtain ⟨instruction, later, here, rfl⟩ := Frame.exists_of_getElem?_nodes found
  have introduced : ∀ s ∈ copying.defined loc instruction,
      s.name ∈ frame.introduced loc instruction := fun s isDefined =>
    Copying.mem_introduced_of_mem_defined base isHead isDefined
  refine ⟨instruction, here, within, rfl, rfl, introduced, ?_⟩
  refine (Copying.map_lhs_node regular base isHead _ _ _ loc instruction later).trans ?_
  refine List.map_congr_left fun s isDefined => ?_
  exact Copying.symbol_of_mem_introduced regular base here within (introduced s isDefined)

end Ssa.Series

end TemplateAnalysis
