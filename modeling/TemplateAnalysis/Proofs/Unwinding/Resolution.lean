import TemplateAnalysis.Proofs.Ssa.OverApproximation
import TemplateAnalysis.Proofs.Ssa.Reads
import TemplateAnalysis.Proofs.Unwinding.Copies

/-! # What copied nodes read

A copied node reads copies of what its location reads, and at the head what the copy before has
left. A symbol that is introduced in the unwound extent, or outside of all loops that have been
unwound around it, stands for the value in a copy that is there: the one of the innermost of these
loops that has been unwound. A symbol of an earlier loop next to one of them is renamed by counters
of loops that do not contain it, and then nothing defines the copy.
-/

namespace TemplateAnalysis

/-- The symbols to which a node gives values: those it defines, and those that its calls write. -/
def Node.written (node : Node) : List Symbol :=
  node.defined ++ node.calls.flatMap fun call => call.result.toList ++ call.globalsOut

/-- The symbol may be left open by the location that introduces it: it says whether a back edge is
taken or what arrives over it, or it stands for an open value. -/
inductive Symbol.IsOpen : Symbol → Prop
  | select (b : Nat) : IsOpen (loopSelect b)
  | back (object : Symbol) (b : Nat) : IsOpen (loopBack object b)
  | nondet (loc k : Nat) (sort : ValueSort) : IsOpen ((Name.nondet loc k).symbol sort)

/-- A copy of a symbol belongs to a node: the node gives it a value, or the symbol may be left open
and the node reads the copy. -/
def Node.Owns (node : Node) (s copy : Symbol) : Prop :=
  copy ∈ node.written ∨ s.IsOpen ∧ copy ∈ Frame.readSymbols [node]

namespace Frame

variable {frame : Frame}

variable (frame) in
/-- Every name that is mentioned has the sort of its object. -/
def OneSort : Prop :=
  ∀ instruction ∈ frame.body, ∀ s ∈ instruction.mentioned, ∀ object ∈ frame.objects,
    object.name = s.name → object = s

theorem Made.isPlain {s : Symbol} (made : frame.Made s) : IsPlain s.name := by
  cases made with
  | guard inside => exact Name.isPlain rfl
  | cond here branches varies => exact Name.isPlain rfl
  | version isObject origin => cases origin <;> exact Name.isPlain rfl

theorem Reads.isPlain {loc : Nat} {s : Symbol} (read : frame.Reads loc s) : IsPlain s.name := by
  cases read with
  | made made => exact made.isPlain
  | select isBack => exact Name.isPlain rfl
  | back isBack object => exact Name.isPlain rfl
  | opened k sort => exact Name.isPlain rfl

theorem introduced_of_mem_written {loc : Nat} {instruction : Instruction} {t : Symbol}
    (member : t ∈ (frame.nodeAt loc instruction).written) :
    t.name ∈ frame.introduced loc instruction := by
  simp only [introduced, List.mem_append, List.mem_flatMap]
  rcases List.mem_append.mp member with defined | called
  · obtain ⟨e, isEquality, rfl⟩ := List.mem_map.mp defined
    exact .inl (.inl (.inl (List.mem_map_of_mem isEquality)))
  · obtain ⟨call, isCall, written⟩ := List.mem_flatMap.mp called
    refine .inl (.inr ⟨call, isCall, ?_⟩)
    rcases List.mem_append.mp written with result | global
    · rw [Option.mem_toList] at result
      exact .inl (by simp [result])
    · exact .inr (List.mem_map_of_mem global)

namespace Regular

variable {table : SymbolTable} (regular : frame.Regular table)
include regular

/-- There is something to merge where an object is merged. -/
theorem alternatives_ne_nil {loc : Nat} (inside : loc < frame.body.length) {object : Symbol}
    (isMerged : object ∈ frame.mergedObjects loc) : frame.alternatives object loc ≠ [] := by
  obtain ⟨isObject, merged⟩ := (regular.mem_mergedObjects inside).mp isMerged
  intro empty
  simp only [alternatives, List.append_eq_nil_iff, List.map_eq_nil_iff, ite_eq_right_iff,
    List.cons_ne_nil, imp_false, List.filterMap_eq_nil_iff, Option.map_eq_none_iff] at empty
  obtain ⟨⟨noBack, noEntry⟩, noPred⟩ := empty
  have noArrival : frame.arriving loc = [] := by
    rw [arriving, if_neg noEntry, List.map_eq_nil_iff, List.eq_nil_iff_forall_not_mem]
    intro pred isPred
    obtain ⟨earlier, -⟩ := regular.pred_lt isPred
    have read := noPred pred isPred
    rw [regular.readAfter?_eq (Nat.lt_trans earlier inside) isObject] at read
    cases read
  have noHead : frame.flow.isHead loc = false := by
    rw [Bool.eq_false_iff]
    intro isHead
    obtain ⟨b, isBack⟩ := (Flow.isHead_iff _).mp isHead
    rw [noBack] at isBack
    cases isBack
  have before := regular.definitionBefore_eq inside isObject
  rw [merged, noArrival, isLooped, noHead] at before
  cases before

/-- The condition of a branch that is no constant is defined. -/
theorem cond_mem_nodeAt {loc : Nat} {instruction : Instruction} {condition : Expr}
    (here : frame.body[loc]? = some instruction)
    (branches : instruction.branch? = some condition) (varies : condition.isConstant = false) :
    (Name.cond loc).bool ∈ (frame.nodeAt loc instruction).defined := by
  obtain ⟨reach, found⟩ := regular.exists_reach (List.getElem?_eq_some_iff.mp here).1
  cases instruction with
  | goto test target =>
    cases branches
    simp [Node.defined, nodeAt, effectAt, found, effect, effect.branch, varies]
  | assume test =>
    cases branches
    simp [Node.defined, nodeAt, effectAt, found, effect, effect.branch, varies]
  | _ => cases branches

/-- What is merged at a location is defined there. -/
theorem phi_mem_mergeEqualities {loc : Nat} (inside : loc < frame.body.length) {object : Symbol}
    (isMerged : object ∈ frame.mergedObjects loc) :
    phi object loc ∈ (frame.mergeEqualities loc).map (·.lhs) := by
  obtain ⟨value, chosen⟩ := exists_chooseFirst (regular.alternatives_ne_nil inside isMerged)
  exact List.mem_map.mpr ⟨_, mem_mergeEqualities.mpr ⟨object, isMerged, value, chosen, rfl⟩, rfl⟩

theorem phi_mem_nodeAt {loc : Nat} (inside : loc < frame.body.length) {object : Symbol}
    (isMerged : object ∈ frame.mergedObjects loc) (instruction : Instruction) :
    phi object loc ∈ (frame.nodeAt loc instruction).defined := by
  rw [Node.defined, nodeAt, List.map_append]
  exact List.mem_append_left _ (regular.phi_mem_mergeEqualities inside isMerged)

/-- Where an object is assigned, the node writes a symbol of the name of its version. -/
theorem exists_written_of_assigns {loc : Nat} {instruction : Instruction}
    (here : frame.body[loc]? = some instruction) {object : Symbol}
    (isObject : object ∈ frame.objects)
    (assigns : object.name ∈ instruction.assigns frame.globals) :
    ∃ t ∈ (frame.nodeAt loc instruction).written,
      t.name = ((Definition.assigned loc).version object).name ∧
        (frame.OneSort → t = (Definition.assigned loc).version object) := by
  have inside := (List.getElem?_eq_some_iff.mp here).1
  obtain ⟨reach, found⟩ := regular.exists_reach inside
  have effect : frame.effectAt loc instruction = frame.effect reach.before loc instruction := by
    rw [effectAt, found]
  -- the instruction writes a version of a symbol that it mentions under the name of the object
  have version : ∀ s ∈ instruction.mentioned, object.name = s.name →
      (Name.version s.name loc).symbol s.sort ∈ (frame.nodeAt loc instruction).written →
      ∃ t ∈ (frame.nodeAt loc instruction).written,
        t.name = ((Definition.assigned loc).version object).name ∧
          (frame.OneSort → t = (Definition.assigned loc).version object) := by
    intro s mentioned same member
    refine ⟨_, member, congrArg (fun name => (Name.version name loc).text) same.symm, ?_⟩
    intro oneSort
    rw [oneSort instruction (List.mem_of_getElem? here) s mentioned object isObject same]
    rfl
  cases instruction with
  | decl target =>
    refine version target (by simp [Instruction.mentioned, Instruction.writes])
      (by simpa [Instruction.assigns] using assigns) ?_
    simp [Node.written, Node.defined, nodeAt, effect, Frame.effect]
  | assign target value =>
    refine version target (by simp [Instruction.mentioned, Instruction.writes])
      (by simpa [Instruction.assigns] using assigns) ?_
    simp [Node.written, Node.defined, nodeAt, effect, Frame.effect]
  | ret value =>
    cases value with
    | none => cases assigns
    | some value =>
      have same : object.name = returnValue := by simpa [Instruction.assigns] using assigns
      have entry := regular.find?_before found isObject
      rw [same] at entry
      refine ⟨(Name.version returnValue loc).symbol object.sort, ?_, by rw [← same]; rfl,
        fun _ => by rw [← same]; rfl⟩
      simp [Node.written, Node.defined, nodeAt, effect, Frame.effect, entry]
  | call result callee arguments =>
    simp only [Instruction.assigns, List.mem_append, Option.mem_toList, Option.map_eq_some_iff,
      List.mem_map] at assigns
    rcases assigns with ⟨target, rfl, same⟩ | ⟨global, isGlobal, same⟩
    · refine version target (by simp [Instruction.mentioned, Instruction.writes]) same.symm ?_
      simp [Node.written, nodeAt, effect, Frame.effect]
    · have member : (Definition.assigned loc).version global ∈
          (frame.nodeAt loc (.call result callee arguments)).written := by
        refine List.mem_append_right _ ?_
        simp only [nodeAt, effect, Frame.effect, List.flatMap_cons, List.flatMap_nil,
          List.append_nil]
        exact List.mem_append_right _ (List.mem_map_of_mem isGlobal)
      rw [regular.globals_eq] at isGlobal
      obtain rfl := List.inj_on_of_nodup_map regular.names_nodup (List.mem_of_mem_filter isGlobal)
        isObject same
      exact ⟨_, member, rfl, fun _ => rfl⟩
  | _ => cases assigns

/-- What is made at some location is written there. -/
theorem exists_written {params : List Symbol} {s : Symbol} (made : frame.Made s) {loc : Nat}
    (defined : (frame.complete params).definedAt? s = some loc) :
    ∃ instruction, frame.body[loc]? = some instruction ∧
      ∃ t ∈ (frame.nodeAt loc instruction).written, t.name = s.name ∧
        (frame.OneSort → t = s) := by
  cases made with
  | @guard source inside =>
    obtain rfl := Option.some.inj (regular.home_of_definedAt? (.guard source) rfl defined)
    refine ⟨_, List.getElem?_eq_getElem inside, _, List.mem_append_left _ ?_, rfl, fun _ => rfl⟩
    exact frame.guard_mem_nodeAt source _
  | @cond source instruction condition here branches varies =>
    obtain rfl := Option.some.inj (regular.home_of_definedAt? (.cond source) rfl defined)
    refine ⟨_, here, (Name.cond source).bool, List.mem_append_left _ ?_, rfl, fun _ => rfl⟩
    exact regular.cond_mem_nodeAt here branches varies
  | @version object d isObject origin =>
    cases origin with
    | input => cases regular.home_of_definedAt? (.input object.name) rfl defined
    | @assigned source instruction here assigns =>
      obtain rfl := Option.some.inj
        (regular.home_of_definedAt? (.version object.name source) rfl defined)
      exact ⟨instruction, here, regular.exists_written_of_assigns here isObject assigns⟩
    | @merged source inside isMerged =>
      obtain rfl := Option.some.inj
        (regular.home_of_definedAt? (.phi object.name source) rfl defined)
      refine ⟨_, List.getElem?_eq_getElem inside, _, List.mem_append_left _ ?_, rfl, fun _ => rfl⟩
      exact regular.phi_mem_nodeAt inside isMerged _

/-- A copy tells of which symbol it is one. -/
theorem eq_of_symbol_eq_unwound {params : List Symbol} {s t : Symbol} {loc : Nat}
    (defined : (frame.complete params).definedAt? s = some loc) {suffix : String}
    (noMark : '#' ∉ suffix.toList) (plain : IsPlain t.name) {copying : Copying}
    (same : copying.symbol t = s.unwound suffix) : t = s := by
  obtain ⟨instruction, -, introduced⟩ := regular.definedAt?_eq_some_iff.mp defined
  obtain ⟨name, isLocal, text, -, -⟩ := regular.exists_introduces introduced
  obtain ⟨other, noMark', copied⟩ := copying.exists_unwound t
  rw [copied] at same
  exact (Symbol.unwound_injective plain (text ▸ Name.isPlain isLocal) noMark' noMark same).1

end Regular

end Frame

namespace Copying

variable {copying : Copying}

theorem mem_occurrences_expr {e : Expr} {s : Symbol} (occurs : s ∈ (copying.expr e).occurrences) :
    ∃ t ∈ e.occurrences, s = copying.symbol t :=
  Expr.mem_occurrences_rename.mp occurs

theorem mem_occurrencesAll_expr {es : List Expr} {s : Symbol}
    (occurs : s ∈ Expr.occurrencesAll (es.map copying.expr)) :
    ∃ t ∈ Expr.occurrencesAll es, s = copying.symbol t := by
  simp only [Expr.occurrencesAll_eq_flatMap, List.mem_flatMap, List.mem_map] at occurs ⊢
  obtain ⟨-, ⟨e, member, rfl⟩, occurs⟩ := occurs
  obtain ⟨t, found, same⟩ := mem_occurrences_expr occurs
  exact ⟨t, ⟨e, member, found⟩, same⟩

section

variable {table : SymbolTable} {frame : Frame} (regular : frame.Regular table)
  {params : List Symbol} (base : copying.ssa = frame.complete params)
include regular base

/-- The copy of the head reads what the copy before has left, and what it defines for its own back
edges. -/
theorem headEqualities_reads (inside : copying.head < frame.body.length) {previous : Copying}
    {e : Equality} (member : e ∈ copying.headEqualities previous) {s : Symbol}
    (occurs : s ∈ e.rhs.occurrences) :
    (∃ t, frame.Reads copying.head t ∧ s = copying.symbol t) ∨
      ∃ t, frame.Made t ∧ s = previous.symbol t := by
  have source : ∀ b ∈ frame.flow.backEdges copying.head, b < frame.body.length := fun b isBack =>
    Accepted.source_lt (regular.mem_backEdges.mp isBack).1
  have object : ∀ object ∈ frame.mergedObjects copying.head, object ∈ frame.objects :=
    fun object isMerged => ((regular.mem_mergedObjects inside).mp isMerged).1
  let P : Symbol → Prop := fun s => ∃ t, frame.Reads copying.head t ∧ s = copying.symbol t
  have select : ∀ b ∈ frame.flow.backEdges copying.head,
      (Expr.var (copying.symbol (loopSelect b))).TermOver P .bool := by
    intro b isBack
    have known : P (copying.symbol (loopSelect b)) := ⟨_, .select isBack, rfl⟩
    have term := Expr.TermOver.var known
    rwa [sort_symbol] at term
  simp only [headEqualities, base, List.mem_append, List.mem_flatMap, List.mem_cons,
    List.mem_filterMap] at member
  rcases member with ⟨b, isBack, rfl | ⟨merged, isMerged, found⟩⟩ | rfl | ⟨merged, isMerged, found⟩
  · obtain ⟨t, occurs', rfl⟩ := mem_occurrences_expr occurs
    exact .inr ⟨t, (Frame.edgeGuard_made (source b isBack) _).within t occurs', rfl⟩
  · obtain ⟨version, read, rfl⟩ := Option.map_eq_some_iff.mp found
    have isObject := object merged isMerged
    have same := regular.readAfter?_eq (source b isBack) isObject
    obtain rfl := Option.some.inj (read.symm.trans same)
    rw [List.mem_singleton.mp occurs]
    exact .inr ⟨_, .version isObject (regular.originates_after (source b isBack) isObject), rfl⟩
  · refine .inl (Expr.TermOver.within (P := P) (.disj fun e member => ?_) s occurs)
    obtain ⟨b, isBack, rfl⟩ := List.mem_map.mp member
    exact select b isBack
  · obtain ⟨value, chosen, rfl⟩ := Option.map_eq_some_iff.mp found
    have term : value.TermOver P merged.sort := by
      refine Frame.chooseFirst_term chosen fun alternative member => ?_
      obtain ⟨b, isBack, rfl⟩ := List.mem_map.mp member
      have known : P (copying.symbol (loopBack merged b)) := ⟨_, .back isBack merged, rfl⟩
      have back := Expr.TermOver.var known
      rw [sort_symbol] at back
      exact ⟨select b isBack, back⟩
    exact .inl (term.within s occurs)

/-- A copied node reads copies of what its location reads, and at the head what the copy before has
left. -/
theorem node_reads {loc : Nat} {instruction : Instruction}
    (here : frame.body[loc]? = some instruction) {previous : Copying} {enable : Symbol}
    {first : Nat} {later : List Expr} {s : Symbol}
    (read : s ∈ Frame.readSymbols [copying.node previous enable first
      { frame.nodeAt loc instruction with laterAssertions := later }]) :
    (∃ t, frame.Reads loc t ∧ s = copying.symbol t) ∨
      ∃ t, frame.Made t ∧ s = previous.symbol t := by
  have inside := (List.getElem?_eq_some_iff.mp here).1
  obtain ⟨-, assertions, calls⟩ := regular.effect_reads here
  have own : ∀ e ∈ (frame.nodeAt loc instruction).equalities,
      ∀ s ∈ (copying.equality e).rhs.occurrences,
        ∃ t, frame.Reads loc t ∧ s = copying.symbol t := by
    intro e member s occurs
    obtain ⟨t, found, same⟩ := mem_occurrences_expr occurs
    exact ⟨t, regular.reads_of_mem here member found, same⟩
  simp only [Frame.readSymbols, List.flatMap_cons, List.flatMap_nil, List.append_nil,
    List.mem_append] at read
  rcases read with ((equality | constraint) | assertion) | called
  · obtain ⟨e, member, occurs⟩ := List.mem_flatMap.mp equality
    simp only [node] at member
    split at member
    · next atHead =>
      rcases List.mem_append.mp member with head | rest
      · obtain rfl : loc = copying.head := atHead
        exact headEqualities_reads regular base inside head occurs
      · obtain ⟨e, kept, rfl⟩ := List.mem_map.mp rest
        exact .inl (own e (List.mem_of_mem_filter kept) s occurs)
    · obtain ⟨e, isOwn, rfl⟩ := List.mem_map.mp member
      exact .inl (own e isOwn s occurs)
  · exact absurd constraint List.not_mem_nil
  · obtain ⟨t, found, same⟩ := mem_occurrencesAll_expr assertion
    exact .inl ⟨t, assertions t found, same⟩
  · obtain ⟨copied, isCopied, reads⟩ := List.mem_flatMap.mp called
    obtain ⟨call, isCall, rfl⟩ := List.mem_map.mp isCopied
    rcases List.mem_append.mp reads with argument | global
    · obtain ⟨t, found, same⟩ := mem_occurrencesAll_expr argument
      exact .inl ⟨t, calls call isCall t (List.mem_append_left _ found), same⟩
    · obtain ⟨t, found, rfl⟩ := List.mem_map.mp global
      exact .inl ⟨t, calls call isCall t (List.mem_append_right _ found), rfl⟩

end

/-- A copied node writes the copies of what its location writes. -/
theorem mem_written_node {table : SymbolTable} {frame : Frame} (regular : frame.Regular table)
    {params : List Symbol} (base : copying.ssa = frame.complete params)
    (isHead : frame.flow.isHead copying.head = true) {loc : Nat} {instruction : Instruction}
    {previous : Copying} {enable : Symbol} {first : Nat} {later : List Expr} {t : Symbol}
    (written : t ∈ (frame.nodeAt loc instruction).written) :
    copying.symbol t ∈ (copying.node previous enable first
      { frame.nodeAt loc instruction with laterAssertions := later }).written := by
  rcases List.mem_append.mp written with own | called
  · refine List.mem_append_left _ ?_
    rw [Node.defined, map_lhs_node regular base isHead]
    refine List.mem_map_of_mem ?_
    have same : copying.ssa.toFrame = frame := by rw [base]; rfl
    simp only [defined, same]
    split
    · by_cases again : t ∈ copying.rebuilt
      · exact List.mem_append_left _ (List.mem_append_right _ again)
      · exact List.mem_append_right _ (List.mem_filter.mpr ⟨own, by simpa using again⟩)
    · exact own
  · obtain ⟨call, isCall, outputs⟩ := List.mem_flatMap.mp called
    refine List.mem_append_right _ (List.mem_flatMap.mpr ⟨_, List.mem_map_of_mem isCall, ?_⟩)
    rcases List.mem_append.mp outputs with result | global
    · rw [Option.mem_toList] at result
      exact List.mem_append_left _ (by simp [Copying.call, result])
    · exact List.mem_append_right _ (List.mem_map_of_mem global)

end Copying

namespace Ssa.Series

variable {table : SymbolTable} {frame : Frame} {params : List Symbol} {copies : List Copying}

variable (frame params copies) in
/-- The counters are, up to each one that is not zero, those of a copy that contains the
location. -/
def Present (loc : Nat) (levels : List Nat) : Prop :=
  levels.length ≤ frame.flow.depth loc ∧ ∀ (i level : Nat), levels[i]? = some (level + 1) →
    ∃ head, (frame.flow.enclosing loc)[i]? = some head ∧
      ⟨frame.complete params, head, levels.take (i + 1)⟩ ∈ copies

variable (regular : frame.Regular table) (series : (frame.complete params).Series copies)
include regular series

/-- Under the counters of copies, a node is there that writes what its location writes. -/
theorem exists_provider {loc : Nat} {instruction : Instruction}
    (here : frame.body[loc]? = some instruction) {levels : List Nat}
    (present : Present frame params copies loc levels) :
    ∃ node ∈ (frame.complete params).arena copies, node.location = loc ∧
      ∀ t ∈ (frame.nodeAt loc instruction).written,
        t.unwound (Odometer.suffixOf levels (frame.flow.depth loc)) ∈ node.written := by
  obtain ⟨fits, made⟩ := present
  obtain ⟨later, found⟩ := Frame.getElem?_nodes here params
  rcases Odometer.trimmed_cases levels with empty | ⟨front, level, trimmed⟩
  · have isNode := ((frame.complete params).nodes_isPrefix_arena copies).subset
      (List.mem_of_getElem? found)
    refine ⟨_, isNode, rfl, fun t written => ?_⟩
    rw [← Odometer.trimmed_padded fits, ← Odometer.suffixOf_eq_empty] at empty
    rw [empty, Symbol.unwound_empty]
    exact written
  · -- the copy of the innermost loop that has been unwound
    obtain ⟨count, split⟩ := Odometer.exists_trimmed levels
    rw [trimmed] at split
    have innermost : levels[front.length]? = some (level + 1) := by simp [split]
    have upTo : levels.take (front.length + 1) = front ++ [level + 1] := by
      rw [split, List.take_append_of_le_length (by simp), List.take_of_length_le (by simp)]
    obtain ⟨head, around, isCopy⟩ := made front.length level innermost
    rw [upTo] at isCopy
    have within := (regular.mem_enclosing.mp (List.mem_of_getElem? around)).2
    have isHead : frame.flow.isHead head = true := series.isHead _ isCopy
    obtain ⟨first, subset⟩ := (frame.complete params).exists_nodes_subset_arena isCopy
    have isNode := subset _ (Copying.mem_nodes.mpr ⟨loc, _, found, within, rfl⟩)
    refine ⟨_, isNode, rfl, fun t written => ?_⟩
    have copied : Copying.symbol ⟨frame.complete params, head, front ++ [level + 1]⟩ t =
        t.unwound (Odometer.suffixOf (front ++ [level + 1]) (frame.flow.depth loc)) :=
      Copying.symbol_of_mem_introduced regular rfl here within
        (Frame.introduced_of_mem_written written)
    have suffix : Odometer.suffixOf levels (frame.flow.depth loc) =
        Odometer.suffixOf (front ++ [level + 1]) (frame.flow.depth loc) := by
      refine Odometer.suffixOf_eq_of_trimmed_eq fits ?_ ?_
      · rw [← upTo, List.length_take]
        omega
      · rw [trimmed, Odometer.trimmed_concat front (Nat.succ_ne_zero level)]
    rw [suffix, ← copied]
    exact Copying.mem_written_node regular rfl isHead written

omit series in
/-- A symbol is copied under the counters of a copy in which its location lies, if no loop beside
it has been unwound around the head. -/
theorem exists_present {copying : Copying} (base : copying.ssa = frame.complete params)
    (isHead : frame.flow.isHead copying.head = true)
    (depth : copying.levels.length = frame.flow.depth copying.head)
    (surrounded : ∀ (i other level : Nat), (frame.flow.enclosing copying.head)[i]? = some other →
      copying.levels[i]? = some (level + 1) →
      ⟨frame.complete params, other, copying.levels.take (i + 1)⟩ ∈ copies)
    {s : Symbol} {loc : Nat} (defined : (frame.complete params).definedAt? s = some loc)
    (entered : ∀ (i outer level : Nat), (frame.flow.enclosing copying.head)[i]? = some outer →
      outer ≠ copying.head → copying.levels[i]? = some (level + 1) → i < frame.flow.depth loc →
      frame.flow.inExtent outer loc = true) :
    ∃ levels, Present frame params copies loc levels ∧
      copying.symbol s = s.unwound (Odometer.suffixOf levels (frame.flow.depth loc)) := by
  have aligned : ∀ (i other : Nat), (frame.flow.enclosing copying.head)[i]? = some other →
      frame.flow.inExtent other loc = true → (frame.flow.enclosing loc)[i]? = some other := by
    intro i other around within
    rw [regular.flow_eq] at around within ⊢
    exact regular.accepted.getElem?_enclosing_of_inExtent around within
  have around : ∀ (i level : Nat), copying.levels[i]? = some level →
      ∃ other, (frame.flow.enclosing copying.head)[i]? = some other := by
    intro i level found
    have bound := (List.getElem?_eq_some_iff.mp found).1
    rw [depth] at bound
    exact ⟨_, List.getElem?_eq_getElem bound⟩
  have definedAt : copying.ssa.definedAt? s = some loc := base ▸ defined
  have flow : copying.ssa.flow = frame.flow := by rw [base]; rfl
  by_cases within : frame.flow.inExtent copying.head loc = true
  · have outside : frame.flow.enclosing copying.head <+: frame.flow.enclosing loc := by
      rw [regular.flow_eq] at isHead within ⊢
      exact regular.accepted.enclosing_isPrefix isHead within
    refine ⟨copying.levels, ⟨depth ▸ outside.length_le, ?_⟩, ?_⟩
    · intro i level found
      obtain ⟨other, isAround⟩ := around i (level + 1) found
      have member := outside.subset (List.mem_of_getElem? isAround)
      have contains := (regular.mem_enclosing.mp member).2
      exact ⟨other, aligned i other isAround contains, surrounded i other level isAround found⟩
    · rw [Copying.symbol_of_inExtent definedAt (flow ▸ within), flow]
  · obtain ⟨bound, isBound⟩ :
        ∃ bound, bound = min (copying.levels.length - 1) (frame.flow.depth loc) := ⟨_, rfl⟩
    refine ⟨copying.levels.take bound, ⟨?_, ?_⟩, ?_⟩
    · rw [List.length_take]
      omega
    · intro i level found
      rw [List.getElem?_take, Option.ite_none_right_eq_some] at found
      obtain ⟨below, found⟩ := found
      obtain ⟨other, isAround⟩ := around i (level + 1) found
      have notHead : other ≠ copying.head := by
        rintro rfl
        have whole : frame.flow.enclosing copying.head =
            (frame.flow.enclosing copying.head).take (i + 1) := by
          rw [regular.flow_eq] at isAround ⊢
          exact regular.accepted.enclosing_eq_take isAround
        have lengths := congrArg List.length whole
        rw [List.length_take, ← Flow.depth, ← depth] at lengths
        omega
      have contains := entered i other level isAround notHead found (by omega)
      refine ⟨other, aligned i other isAround contains, ?_⟩
      rw [List.take_take, Nat.min_eq_left (by omega)]
      exact surrounded i other level isAround found
    · simp [Copying.symbol, definedAt, flow, within, isBound]

omit regular in
/-- The counters before an unwinding are those of the unwinding before, or it is the first. -/
theorem getElem?_levels_previous {copying : Copying} (isCopy : copying ∈ copies) {i level : Nat}
    (found : copying.previous.levels[i]? = some (level + 1)) :
    (i + 1 < copying.levels.length ∧ copying.levels[i]? = some (level + 1) ∧
        copying.previous.levels.take (i + 1) = copying.levels.take (i + 1)) ∨
      (i + 1 = copying.levels.length ∧
        ⟨frame.complete params, copying.head, copying.previous.levels.take (i + 1)⟩ ∈ copies) := by
  obtain ⟨outer, last, levels⟩ := series.counted copying isCopy
  rw [Copying.levels_previous levels] at found ⊢
  have bound := (List.getElem?_eq_some_iff.mp found).1
  rw [List.length_append, List.length_singleton] at bound
  rcases Nat.lt_or_ge i outer.length with before | behind
  · rw [List.getElem?_append_left before] at found
    refine .inl ⟨by simp [levels, before], ?_, ?_⟩
    · rw [levels, List.getElem?_append_left before, found]
    · rw [levels, List.take_append_of_le_length before, List.take_append_of_le_length before]
  · obtain rfl : i = outer.length := by omega
    rw [List.getElem?_concat_length] at found
    obtain rfl := Option.some.inj found
    refine .inr ⟨by simp [levels], ?_⟩
    rw [List.take_of_length_le (by simp)]
    exact series.preceded copying isCopy outer level levels

/-- What is made at some location belongs to a node of it under the counters of copies. -/
theorem exists_owner_of_made {s : Symbol} (made : frame.Made s) {loc : Nat}
    (defined : (frame.complete params).definedAt? s = some loc) {levels : List Nat}
    (present : Present frame params copies loc levels) {read : Symbol}
    (copied : read = s.unwound (Odometer.suffixOf levels (frame.flow.depth loc))) :
    ∃ provider ∈ (frame.complete params).arena copies, provider.location = loc ∧
      ∃ own, provider.Owns s own ∧ own.name = read.name ∧ (frame.OneSort → own = read) := by
  obtain ⟨instruction, here, t, written, names, sorts⟩ := regular.exists_written made defined
  obtain ⟨provider, isProvider, location, provides⟩ := exists_provider regular series here present
  refine ⟨provider, isProvider, location, _, .inl (provides t written), ?_, ?_⟩
  · rw [copied, Symbol.name_unwound_congr names]
  · intro oneSort
    rw [copied, sorts oneSort]

/-- What the unwinding before a copy has renamed is copied under the counters of a copy as well. -/
theorem exists_present_previous {copying : Copying} (isCopy : copying ∈ copies) {s : Symbol}
    {loc : Nat} (defined : (frame.complete params).definedAt? s = some loc)
    (entered : ∀ (i outer level : Nat), (frame.flow.enclosing copying.head)[i]? = some outer →
      outer ≠ copying.head → copying.levels[i]? = some (level + 1) → i < frame.flow.depth loc →
      frame.flow.inExtent outer loc = true) :
    ∃ levels, Present frame params copies loc levels ∧
      copying.previous.symbol s = s.unwound (Odometer.suffixOf levels (frame.flow.depth loc)) := by
  have isHead : frame.flow.isHead copying.head = true := series.isHead copying isCopy
  have depth : copying.levels.length = frame.flow.depth copying.head := series.depth copying isCopy
  have base : copying.previous.ssa = frame.complete params := series.ssa_eq copying isCopy
  obtain ⟨outer, last, levels⟩ := series.counted copying isCopy
  have length : copying.previous.levels.length = copying.levels.length := by
    rw [Copying.levels_previous levels, levels]
    simp
  -- only the counter of the unwound loop differs from those of the copy
  have innermost : ∀ i other, i + 1 = copying.levels.length →
      (frame.flow.enclosing copying.head)[i]? = some other → other = copying.head := by
    intro i other isLast around
    obtain ⟨front, chain⟩ := regular.enclosing_concat isHead
    rw [depth, Flow.depth, chain, List.length_append, List.length_singleton] at isLast
    obtain rfl : i = front.length := by omega
    rw [chain, List.getElem?_concat_length] at around
    exact (Option.some.inj around).symm
  refine exists_present regular base isHead (length.trans depth) ?_ defined ?_
  · intro i other level isAround found
    rcases series.getElem?_levels_previous isCopy found with
      ⟨-, found, takes⟩ | ⟨isLast, isPrevious⟩
    · rw [takes]
      exact series.surrounded copying isCopy i other level isAround found
    · rw [innermost i other isLast isAround]
      exact isPrevious
  · intro i other level isAround apart found below
    rcases series.getElem?_levels_previous isCopy found with ⟨-, found, -⟩ | ⟨isLast, -⟩
    · exact entered i other level isAround apart found below
    · exact absurd (innermost i other isLast isAround) apart

/-- What a copied node reads has an owner among the nodes that are there, if no loop beside the
definition has been unwound around the head. -/
theorem exists_owner {copying : Copying} (isCopy : copying ∈ copies) {node : Node} {first : Nat}
    (isNode : node ∈ copying.nodes first) (present : node ∈ (frame.complete params).arena copies)
    {read s : Symbol} {suffix : String} (reads : read ∈ Frame.readSymbols [node])
    (noMark : '#' ∉ suffix.toList) (renames : read = s.unwound suffix) {loc : Nat}
    (defined : (frame.complete params).definedAt? s = some loc)
    (entered : ∀ (i outer level : Nat), (frame.flow.enclosing copying.head)[i]? = some outer →
      outer ≠ copying.head → copying.levels[i]? = some (level + 1) → i < frame.flow.depth loc →
      frame.flow.inExtent outer loc = true) :
    ∃ provider ∈ (frame.complete params).arena copies, provider.location = loc ∧
      ∃ own, provider.Owns s own ∧ own.name = read.name ∧ (frame.OneSort → own = read) := by
  have base := series.ssa_eq copying isCopy
  obtain ⟨site, origin, found, within, rfl⟩ := Copying.mem_nodes.mp isNode
  rw [base] at found
  obtain ⟨instruction, later, here, rfl⟩ := Frame.exists_of_getElem?_nodes found
  -- the node itself has what its own location leaves open
  have itself : s.IsOpen → loc = site → ∃ provider ∈ (frame.complete params).arena copies,
      provider.location = loc ∧
        ∃ own, provider.Owns s own ∧ own.name = read.name ∧ (frame.OneSort → own = read) := by
    rintro isOpen rfl
    exact ⟨_, present, rfl, read, .inr ⟨isOpen, reads⟩, rfl, fun _ => rfl⟩
  rcases Copying.node_reads regular base here reads with ⟨t, isRead, copied⟩ | ⟨t, made, copied⟩
  · obtain rfl := regular.eq_of_symbol_eq_unwound defined noMark isRead.isPlain
      (copied.symm.trans renames)
    cases isRead with
    | made made =>
      obtain ⟨levels, isPresent, same⟩ := exists_present regular base (series.isHead copying isCopy)
        (series.depth copying isCopy) (series.surrounded copying isCopy) defined entered
      exact exists_owner_of_made regular series made defined isPresent (copied.trans same)
    | @select b isBack =>
      have home := regular.home_of_definedAt? (.loopSelect b) rfl defined
      exact itself (.select b) ((Option.some.inj home).symm.trans (regular.headOf_eq isBack))
    | @back b isBack object =>
      have home := regular.home_of_definedAt? (.loopBack object.name b) rfl defined
      exact itself (.back object b) ((Option.some.inj home).symm.trans (regular.headOf_eq isBack))
    | opened k sort =>
      have home := regular.home_of_definedAt? (.nondet site k) rfl defined
      exact itself (.nondet site k sort) (Option.some.inj home).symm
  · obtain rfl := regular.eq_of_symbol_eq_unwound defined noMark made.isPlain
      (copied.symm.trans renames)
    obtain ⟨levels, isPresent, same⟩ :=
      exists_present_previous regular series isCopy defined entered
    exact exists_owner_of_made regular series made defined isPresent (copied.trans same)

end Ssa.Series

/-- Every symbol that a copied node reads, and that renames a symbol of the form before unwinding,
belongs to a node of the location that introduces the symbol, if each loop around the unwound one
that has been unwound and is not nested deeper than the location contains it. -/
theorem Unwinds.exists_own_of_read {function : String} {procedure : Procedure}
    {table : SymbolTable} {ssa unwound : Ssa}
    (built : Ssa.build function procedure table = .ok ssa) {heads : List Nat} {u : Unwinder}
    (run : Unwinds ssa heads u unwound) {node : Node} (member : node ∈ unwound.nodes) {head : Nat}
    {levels : List Nat} (copied : node.enabling =
      .var (Name.enable head (Odometer.suffixOf levels levels.length)).bool)
    {read s : Symbol} {suffix : String} (reads : read ∈ Frame.readSymbols [node])
    (noMark : '#' ∉ suffix.toList) (renames : read = s.unwound suffix) {loc : Nat}
    (defined : ssa.definedAt? s = some loc)
    (entered : ∀ (i outer level : Nat), (ssa.flow.enclosing head)[i]? = some outer →
      outer ≠ head → levels[i]? = some (level + 1) → i < ssa.flow.depth loc →
      ssa.flow.inExtent outer loc = true) :
    ∃ provider ∈ unwound.nodes, provider.location = loc ∧
      ∃ own, provider.Owns s own ∧ own.name = read.name ∧
        ((∀ s ∈ procedure.symbols table, ∀ t ∈ procedure.symbols table, s.name = t.name → s = t) →
          own = read) := by
  obtain ⟨frame, isFrame, rfl⟩ := Ssa.frame_of_build built
  obtain ⟨regular, body, objects⟩ := Frame.regular_of_build isFrame
  obtain ⟨copies, series, rfl⟩ := run.exists_series regular
  rcases Ssa.mem_arena _ member with isBase | ⟨copying, isCopy, first, isNode⟩
  · obtain ⟨loc, found⟩ := List.mem_iff_getElem?.mp isBase
    obtain ⟨instruction, later, here, rfl⟩ := Frame.exists_of_getElem?_nodes found
    cases copied
  · obtain ⟨-, -, -, enabling, -, -, -⟩ := series.exists_defined regular isCopy isNode
    rw [enabling] at copied
    obtain ⟨rfl, rfl⟩ := series.eq_of_literal_eq isCopy (Expr.var.inj copied)
    obtain ⟨provider, isProvider, location, own, owns, names, sorts⟩ :=
      series.exists_owner regular isCopy isNode member reads noMark renames defined entered
    refine ⟨provider, isProvider, location, own, owns, names, fun oneSort => sorts ?_⟩
    intro instruction isInstruction s mentioned object isObject same
    rw [body] at isInstruction
    rw [objects] at isObject
    exact oneSort object (mem_symbols_of_mem_objectsOf isObject) s
      (Frame.mem_symbols_of_mem_body isInstruction (List.mem_append_left _ mentioned)) same

/-- A loop inside a loop, and another loop in front of them that assigns what the inner one
asserts. -/
def assertingBehind : Procedure where
  params := [⟨"x", .int⟩]
  body := [
    .assign ⟨"x", .int⟩ (.nondet .int),
    .goto (.nondet .bool) 0,
    .skip,
    .assert (.cmp .ge (.var ⟨"x", .int⟩) (.int 0)),
    .goto (.nondet .bool) 3,
    .goto (.nondet .bool) 2,
    .endFunction]

/-- The inner loop unwound in a copy of the outer one reads the condition that the copy of the outer
one has defined. -/
theorem Unwinds.exists_own_inside : ∃ ssa u unwound node provider,
    Ssa.build "f" assertingBehind [] = .ok ssa ∧ Unwinds ssa [2, 3] u unwound ∧
    unwound.nodes[11]? = some node ∧ ⟨"$cond#4%1.0", .bool⟩ ∈ Frame.readSymbols [node] ∧
    provider ∈ unwound.nodes ∧ provider.location = 4 ∧
    provider.Owns (Name.cond 4).bool ⟨"$cond#4%1.0", .bool⟩ := by
  obtain ⟨ssa, built⟩ : ∃ ssa, Ssa.build "f" assertingBehind [] = .ok ssa := ⟨_, rfl⟩
  have run : ∃ u unwound node, Unwinds ssa [2, 3] u unwound ∧ unwound.nodes[11]? = some node ∧
      node.enabling = .var (Name.enable 3 (Odometer.suffixOf [1, 1] 2)).bool ∧
      ⟨"$cond#4%1.0", .bool⟩ ∈ Frame.readSymbols [node] ∧
      ssa.definedAt? (Name.cond 4).bool = some 4 ∧ ssa.flow.enclosing 3 = [2, 3] ∧
      ssa.flow.inExtent 2 4 = true := by
    cases built
    exact ⟨_, _, _, .unwound (.unwound .fresh rfl) rfl, rfl, by decide +kernel,
      by decide +kernel, by decide +kernel, by decide, by decide⟩
  obtain ⟨u, unwound, node, run, found, copied, reads, defined, around, within⟩ := run
  have renames : (⟨"$cond#4%1.0", .bool⟩ : Symbol) = (Name.cond 4).bool.unwound "1.0" := by decide
  have entered : ∀ (i outer level : Nat), (ssa.flow.enclosing 3)[i]? = some outer → outer ≠ 3 →
      [1, 1][i]? = some (level + 1) → i < ssa.flow.depth 4 → ssa.flow.inExtent outer 4 = true := by
    intro i outer level isAround apart _ _
    rw [around] at isAround
    have member := List.mem_of_getElem? isAround
    obtain rfl : outer = 2 := by simpa [apart] using member
    exact within
  obtain ⟨provider, isProvider, location, own, owns, -, same⟩ :=
    Unwinds.exists_own_of_read built run (List.mem_of_getElem? found) copied reads (by decide)
      renames defined entered
  obtain rfl := same (by decide)
  exact ⟨ssa, u, unwound, node, provider, built, run, found, reads, isProvider, location, owns⟩

/-- There it asserts of a symbol that belongs to no node: the location that introduces it lies
outside of both loops, and yet it is renamed by the counter of the outer one. -/
theorem Unwinds.not_exists_own_behind : ∃ ssa u unwound node,
    Ssa.build "f" assertingBehind [] = .ok ssa ∧ Unwinds ssa [2, 3] u unwound ∧
    unwound.nodes[11]? = some node ∧ node.assertions.map Expr.text = ["(x#0%1 >= 0)"] ∧
    ssa.definedAt? ⟨"x#0", .int⟩ = some 0 ∧
    Symbol.unwound ⟨"x#0", .int⟩ "1" ∈ Frame.readSymbols [node] ∧
    ∀ provider ∈ unwound.nodes, provider.location = 0 →
      Symbol.unwound ⟨"x#0", .int⟩ "1" ∉ provider.written ++ Frame.readSymbols [provider] := by
  obtain ⟨ssa, built⟩ : ∃ ssa, Ssa.build "f" assertingBehind [] = .ok ssa := ⟨_, rfl⟩
  cases built
  refine ⟨_, _, _, _, rfl, .unwound (.unwound .fresh rfl) rfl, rfl, ?_, ?_, ?_, ?_⟩
  all_goals decide +kernel

end TemplateAnalysis
