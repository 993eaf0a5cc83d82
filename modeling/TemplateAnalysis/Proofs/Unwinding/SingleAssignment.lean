import TemplateAnalysis.Proofs.Ssa.OverApproximation
import TemplateAnalysis.Proofs.Unwinding.Copies

/-! # Unwinding keeps single assignment

A node defines symbols of its location under the counters of its copy, each of them once. Two nodes
of one location differ in the copies they belong to, and the counters of two copies that contain the
location are told apart by the suffixes at its depth. So no symbol is defined twice, however often
and in whichever order loops are unwound.
-/

namespace TemplateAnalysis

/-- The frame calls its objects by proper names. -/
structure Frame.Named (frame : Frame) : Prop where
  objects : ∀ object ∈ frame.objects, IsObjectName object.name
  body : ∀ instruction ∈ frame.body, ∀ s ∈ instruction.mentioned ++ instruction.returned,
    IsObjectName s.name

theorem Frame.named_of_build {function : String} {procedure : Procedure} {table : SymbolTable}
    {frame : Frame} (built : Frame.build function procedure table = .ok frame)
    (identifiers : ∀ s ∈ procedure.mentioned table, IsIdentifier s.name) : frame.Named := by
  obtain ⟨-, body, objects⟩ := regular_of_build built
  constructor
  · intro object isObject
    rw [objects] at isObject
    exact isObjectName_of_mem_symbols identifiers (mem_symbols_of_mem_objectsOf isObject)
  · intro instruction member s mentioned
    rw [body] at member
    exact isObjectName_of_mem_symbols identifiers (mem_symbols_of_mem_body member mentioned)

/-- The symbol has the given name, over proper objects. -/
structure Symbol.HasName (s : Symbol) (name : Name) : Prop where
  proper : name.IsProper
  text_eq : s.name = name.text

theorem Symbol.HasName.eq {s : Symbol} {m n : Name} (first : s.HasName m) (second : s.HasName n) :
    m = n :=
  Name.text_injective first.proper second.proper (first.text_eq.symm.trans second.text_eq)

/-- Symbols of different names are different. -/
theorem Symbol.HasName.ne {s t : Symbol} {m n : Name} (first : s.HasName m) (second : t.HasName n)
    (apart : m ≠ n) : s ≠ t := by
  rintro rfl
  exact apart (first.eq second)

namespace Frame

variable {table : SymbolTable} {frame : Frame}

/-- An instruction defines one symbol at most. -/
theorem effectAt_pairwise (loc : Nat) (instruction : Instruction) (R : Equality → Equality → Prop) :
    (frame.effectAt loc instruction).equalities.Pairwise R := by
  rcases frame.exists_effectAt loc instruction with none | ⟨definitions, same⟩
  · rw [none]
    exact .nil
  · rw [same]
    have branch : ∀ condition, (effect.branch definitions loc condition).equalities.Pairwise R := by
      intro condition
      unfold effect.branch
      split
      · exact .nil
      · exact List.pairwise_singleton _ _
    cases instruction with
    | goto condition target => exact branch condition
    | assume condition => exact branch condition
    | decl object => exact List.pairwise_singleton _ _
    | assign target value => exact List.pairwise_singleton _ _
    | ret value =>
      cases value with
      | none => exact .nil
      | some value => exact List.pairwise_singleton _ _
    | _ => exact .nil

theorem guard_hasName (loc : Nat) : (Name.guard loc).bool.HasName (.guard loc) :=
  ⟨Name.isProper_of_none rfl, rfl⟩

namespace Named

variable (named : frame.Named)
include named

theorem phi_hasName {object : Symbol} (isObject : object ∈ frame.objects) (loc : Nat) :
    (phi object loc).HasName (.phi object.name loc) := by
  refine ⟨?_, rfl⟩
  rintro name ⟨⟩
  exact named.objects object isObject

theorem effect_hasName {loc : Nat} {instruction : Instruction}
    (here : frame.body[loc]? = some instruction) {e : Equality}
    (member : e ∈ (frame.effectAt loc instruction).equalities) :
    ∃ name, e.lhs.HasName name ∧ (∀ object, name ≠ .phi object loc) ∧ name ≠ .guard loc ∧
      name.isOpen = false := by
  rcases mem_effectAt member with ⟨object, mentioned, text⟩ | text
  · refine ⟨_, ⟨?_, text⟩, nofun, nofun, rfl⟩
    rintro name ⟨⟩
    exact named.body instruction (List.mem_of_getElem? here) object mentioned
  · exact ⟨_, ⟨Name.isProper_of_none rfl, text⟩, nofun, nofun, rfl⟩

/-- What a location introduces has names over proper objects. -/
theorem exists_hasName (regular : frame.Regular table) {loc : Nat} {instruction : Instruction}
    (here : frame.body[loc]? = some instruction) {s : Symbol}
    (member : s.name ∈ frame.introduced loc instruction) :
    ∃ name : Name, name.isLocal = true ∧ s.HasName name := by
  obtain ⟨name, isLocal, text, -, speaks⟩ := regular.exists_introduces member
  refine ⟨name, isLocal, ⟨fun object isObject => ?_, text⟩⟩
  obtain ⟨t, member, rfl⟩ := speaks object isObject
  rcases List.mem_append.mp member with isObject | mentioned
  · exact named.objects t isObject
  · exact named.body instruction (List.mem_of_getElem? here) t mentioned

/-- What a location defines has names that are not open. -/
theorem defined_hasName (regular : frame.Regular table) {loc : Nat} {instruction : Instruction}
    (here : frame.body[loc]? = some instruction) {s : Symbol}
    (member : s ∈ (frame.nodeAt loc instruction).defined) :
    ∃ name, s.HasName name ∧ name.isOpen = false := by
  have inside := (List.getElem?_eq_some_iff.mp here).1
  obtain ⟨e, isEquality, rfl⟩ := List.mem_map.mp member
  rcases List.mem_append.mp isEquality with merge | rest
  · obtain ⟨object, isMerged, value, -, rfl⟩ := mem_mergeEqualities.mp merge
    have isObject := ((regular.mem_mergedObjects inside).mp isMerged).1
    exact ⟨_, named.phi_hasName isObject loc, rfl⟩
  · rcases List.mem_cons.mp rest with rfl | effect
    · exact ⟨_, guard_hasName loc, rfl⟩
    · obtain ⟨name, hasName, -, -, closed⟩ := named.effect_hasName here effect
      exact ⟨name, hasName, closed⟩

/-- The node of a location defines every symbol once. -/
theorem defined_nodup (regular : frame.Regular table) {loc : Nat} {instruction : Instruction}
    (here : frame.body[loc]? = some instruction) :
    (frame.nodeAt loc instruction).defined.Nodup := by
  have inside := (List.getElem?_eq_some_iff.mp here).1
  have object : ∀ {object}, object ∈ frame.mergedObjects loc → object ∈ frame.objects :=
    fun isMerged => ((regular.mem_mergedObjects inside).mp isMerged).1
  refine List.pairwise_map.mpr (List.pairwise_append.mpr ⟨?_, List.pairwise_cons.mpr ⟨?_, ?_⟩, ?_⟩)
  · refine List.pairwise_filterMap.mpr ?_
    refine (regular.mergedObjects_pairwise inside).imp_of_mem ?_
    intro first second isFirst isSecond apart e found later found'
    obtain ⟨value, -, rfl⟩ := Option.map_eq_some_iff.mp found
    obtain ⟨value', -, rfl⟩ := Option.map_eq_some_iff.mp found'
    refine (named.phi_hasName (object isFirst) loc).ne (named.phi_hasName (object isSecond) loc) ?_
    exact fun same => apart (Name.phi.inj same).1
  · intro e effect
    obtain ⟨name, hasName, -, noGuard, -⟩ := named.effect_hasName here effect
    exact (guard_hasName loc).ne hasName noGuard.symm
  · exact effectAt_pairwise loc instruction _
  · intro e merge later rest
    obtain ⟨merged, isMerged, value, -, rfl⟩ := mem_mergeEqualities.mp merge
    have isPhi := named.phi_hasName (object isMerged) loc
    rcases List.mem_cons.mp rest with rfl | effect
    · exact isPhi.ne (guard_hasName loc) nofun
    · obtain ⟨name, hasName, noPhi, -, -⟩ := named.effect_hasName here effect
      exact isPhi.ne hasName (noPhi _).symm

theorem loopBack_hasName {object : Symbol} (isObject : object ∈ frame.objects) (b : Nat) :
    (loopBack object b).HasName (.loopBack object.name b) := by
  refine ⟨?_, rfl⟩
  rintro name ⟨⟩
  exact named.objects object isObject

omit named in
theorem loopSelect_hasName (b : Nat) : (loopSelect b).HasName (.loopSelect b) :=
  ⟨Name.isProper_of_none rfl, rfl⟩

section

variable (regular : frame.Regular table) {loc : Nat} (inside : loc < frame.body.length)
include regular inside

/-- What arrives over a back edge has names that tell the edge. -/
theorem arrival_hasName {s : Symbol} (arrives : s ∈ frame.arrivals loc) :
    (∃ b, s.HasName (.loopSelect b)) ∨ ∃ object b, s.HasName (.loopBack object b) := by
  obtain ⟨b, -, arrives⟩ := List.mem_flatMap.mp arrives
  rcases List.mem_cons.mp arrives with rfl | isBack
  · exact .inl ⟨b, loopSelect_hasName b⟩
  · obtain ⟨object, isMerged, rfl⟩ := List.mem_map.mp isBack
    have isObject := ((regular.mem_mergedObjects inside).mp isMerged).1
    exact .inr ⟨_, b, named.loopBack_hasName isObject b⟩

theorem arrivals_nodup : (frame.arrivals loc).Nodup := by
  have edges : (frame.flow.backEdges loc).Nodup := by
    rw [regular.flow_eq]
    exact Flow.backEdges_nodup frame.body loc
  have object : ∀ {object}, object ∈ frame.mergedObjects loc → object ∈ frame.objects :=
    fun isMerged => ((regular.mem_mergedObjects inside).mp isMerged).1
  refine List.nodup_flatMap.mpr ⟨fun b _ => List.nodup_cons.mpr ⟨?_, ?_⟩, edges.imp ?_⟩
  · rintro isBack
    obtain ⟨merged, isMerged, same⟩ := List.mem_map.mp isBack
    exact (named.loopBack_hasName (object isMerged) b).ne (loopSelect_hasName b) nofun same
  · refine List.pairwise_map.mpr ((regular.mergedObjects_pairwise inside).imp_of_mem ?_)
    intro first second isFirst isSecond apart
    refine (named.loopBack_hasName (object isFirst) b).ne
      (named.loopBack_hasName (object isSecond) b) ?_
    exact fun same => apart (Name.loopBack.inj same).1
  · intro b b' apart s first second
    simp only [List.mem_cons, List.mem_map] at first second
    rcases first with rfl | ⟨merged, isMerged, rfl⟩ <;>
      rcases second with same | ⟨merged', isMerged', same⟩
    · have names := (loopSelect_hasName b).eq (same ▸ loopSelect_hasName b')
      exact apart (Name.loopSelect.inj names)
    · exact (named.loopBack_hasName (object isMerged') b').ne (loopSelect_hasName b) nofun same
    · exact (named.loopBack_hasName (object isMerged) b).ne (loopSelect_hasName b') nofun same
    · have names := (named.loopBack_hasName (object isMerged) b).eq
        (same ▸ named.loopBack_hasName (object isMerged') b')
      exact apart (Name.loopBack.inj names).2

end

section

variable (regular : frame.Regular table) {copying : Copying} {params : List Symbol}
  (base : copying.ssa = frame.complete params)
include regular base

/-- What the copy of a head defines anew has names that are not open. -/
theorem rebuilt_hasName (inside : copying.head < frame.body.length) {s : Symbol}
    (member : s ∈ copying.rebuilt) : ∃ name, s.HasName name ∧ name.isOpen = false := by
  simp only [Copying.rebuilt, base, List.mem_cons, List.mem_map] at member
  rcases member with rfl | ⟨object, isMerged, rfl⟩
  · exact ⟨_, guard_hasName _, rfl⟩
  · have isObject := ((regular.mem_mergedObjects inside).mp isMerged).1
    exact ⟨_, named.phi_hasName isObject _, rfl⟩

theorem rebuilt_nodup (inside : copying.head < frame.body.length) : copying.rebuilt.Nodup := by
  have object : ∀ {object}, object ∈ frame.mergedObjects copying.head → object ∈ frame.objects :=
    fun isMerged => ((regular.mem_mergedObjects inside).mp isMerged).1
  simp only [Copying.rebuilt, base, List.nodup_cons, List.mem_map]
  refine ⟨?_, List.pairwise_map.mpr ((regular.mergedObjects_pairwise inside).imp_of_mem ?_)⟩
  · rintro ⟨merged, isMerged, isGuard⟩
    exact (named.phi_hasName (object isMerged) _).ne (guard_hasName _) (by simp) isGuard
  · intro first second isFirst isSecond apart
    refine (named.phi_hasName (object isFirst) _).ne (named.phi_hasName (object isSecond) _) ?_
    exact fun same => apart (Name.phi.inj same).1

/-- The copied node of a location defines copies of different symbols. -/
theorem copied_nodup {loc : Nat} {instruction : Instruction}
    (here : frame.body[loc]? = some instruction) : (copying.defined loc instruction).Nodup := by
  have own := named.defined_nodup regular here
  have same : copying.ssa.toFrame = frame := by rw [base]; rfl
  simp only [Copying.defined, same]
  split
  · next atHead =>
    have inside := (List.getElem?_eq_some_iff.mp here).1
    have inside' : copying.head < frame.body.length := atHead ▸ inside
    -- what arrives has open names, and all else has others
    have apart : ∀ s ∈ frame.arrivals loc, ∀ name, s.HasName name → name.isOpen = false →
        False := by
      intro s arrives name hasName closed
      rcases named.arrival_hasName regular inside arrives with ⟨b, select⟩ | ⟨object, b, back⟩
      · rw [← select.eq hasName] at closed
        cases closed
      · rw [← back.eq hasName] at closed
        cases closed
    refine List.nodup_append.mpr ⟨List.nodup_append.mpr ⟨named.arrivals_nodup regular inside,
      named.rebuilt_nodup regular base inside', ?_⟩, own.filter _, ?_⟩
    · rintro s arrives t isRebuilt rfl
      obtain ⟨name, hasName, closed⟩ := named.rebuilt_hasName regular base inside' isRebuilt
      exact apart s arrives name hasName closed
    · rintro s member t isOwn rfl
      obtain ⟨isOwn, kept⟩ := List.mem_filter.mp isOwn
      rcases List.mem_append.mp member with arrives | isRebuilt
      · obtain ⟨name, hasName, closed⟩ := named.defined_hasName regular here isOwn
        exact apart s arrives name hasName closed
      · simp [isRebuilt] at kept
  · exact own

end

end Named

end Frame

/-- The node defines different symbols of a location, all of them under the given counters. -/
def Node.DefinesUnder (frame : Frame) (node : Node) (loc : Nat) (levels : List Nat) : Prop :=
  ∃ (instruction : Instruction) (symbols : List Symbol), frame.body[loc]? = some instruction ∧
    symbols.Nodup ∧
    (∀ s ∈ symbols, s.name ∈ frame.introduced loc instruction) ∧
    node.defined = symbols.map (·.unwound (Odometer.suffixOf levels (frame.flow.depth loc)))

namespace Node.DefinesUnder

variable {table : SymbolTable} {frame : Frame} (regular : frame.Regular table) {node other : Node}
  {loc loc' : Nat} {levels levels' : List Nat}
include regular

/-- What is defined tells the symbol, its location and the suffix. -/
private theorem eq_of_unwound_eq {s t : Symbol} {instruction instruction' : Instruction}
    (first : s.name ∈ frame.introduced loc instruction)
    (second : t.name ∈ frame.introduced loc' instruction') {depth depth' : Nat}
    (same : s.unwound (Odometer.suffixOf levels depth) =
      t.unwound (Odometer.suffixOf levels' depth')) :
    s = t ∧ loc = loc' ∧ Odometer.suffixOf levels depth = Odometer.suffixOf levels' depth' := by
  obtain ⟨m, isLocal, text, -, -⟩ := regular.exists_introduces first
  obtain ⟨n, isLocal', text', -, -⟩ := regular.exists_introduces second
  obtain ⟨rfl, suffixes⟩ := Symbol.unwound_injective (text ▸ Name.isPlain isLocal)
    (text' ▸ Name.isPlain isLocal') (Odometer.not_mem_suffixOf (by decide) (by decide) _ _)
    (Odometer.not_mem_suffixOf (by decide) (by decide) _ _) same
  exact ⟨rfl, regular.introduced_unique first second, suffixes⟩

/-- What two nodes define tells the location and the suffix. -/
theorem eq_of_mem (first : node.DefinesUnder frame loc levels)
    (second : other.DefinesUnder frame loc' levels') {s : Symbol} (member : s ∈ node.defined)
    (member' : s ∈ other.defined) : loc = loc' ∧ Odometer.suffixOf levels (frame.flow.depth loc) =
      Odometer.suffixOf levels' (frame.flow.depth loc') := by
  obtain ⟨instruction, symbols, -, -, introduced, defined⟩ := first
  obtain ⟨instruction', symbols', -, -, introduced', defined'⟩ := second
  rw [defined] at member
  rw [defined'] at member'
  obtain ⟨t, isFirst, rfl⟩ := List.mem_map.mp member
  obtain ⟨t', isSecond, same⟩ := List.mem_map.mp member'
  exact (eq_of_unwound_eq regular (introduced t isFirst) (introduced' t' isSecond) same.symm).2

theorem nodup (defines : node.DefinesUnder frame loc levels) : node.defined.Nodup := by
  obtain ⟨instruction, symbols, -, nodup, introduced, defined⟩ := defines
  rw [defined]
  refine nodup.map_on fun s isFirst t isSecond same => ?_
  exact (eq_of_unwound_eq regular (introduced s isFirst) (introduced t isSecond) same).1

end Node.DefinesUnder

section

variable {table : SymbolTable} {frame : Frame} (regular : frame.Regular table)
  (named : frame.Named) {params : List Symbol}
include regular named

theorem definesUnder_of_mem_nodes {node : Node} (member : node ∈ (frame.complete params).nodes) :
    node.DefinesUnder frame node.location [] := by
  obtain ⟨loc, found⟩ := List.mem_iff_getElem?.mp member
  obtain ⟨instruction, later, here, rfl⟩ := Frame.exists_of_getElem?_nodes found
  refine ⟨instruction, _, here, named.defined_nodup regular here, ?_, by simp [Node.defined]⟩
  intro s isDefined
  obtain ⟨e, isEquality, rfl⟩ := List.mem_map.mp isDefined
  simp only [Frame.introduced, List.mem_append]
  exact .inl (.inl (.inl (List.mem_map_of_mem isEquality)))

theorem definesUnder_of_mem_copy {copies : List Copying}
    (series : (frame.complete params).Series copies) {copying : Copying} (isCopy : copying ∈ copies)
    {node : Node} {first : Nat} (member : node ∈ copying.nodes first) :
    node.DefinesUnder frame node.location copying.levels ∧
      frame.flow.inExtent copying.head node.location = true := by
  obtain ⟨instruction, here, within, -, -, introduced, defined⟩ :=
    series.exists_defined regular isCopy member
  have nodup := named.copied_nodup regular (series.ssa_eq copying isCopy) here
  exact ⟨⟨instruction, _, here, nodup, introduced, defined⟩, within⟩

/-- No symbol is defined twice. -/
theorem defined_arena_nodup {copies : List Copying}
    (series : (frame.complete params).Series copies) :
    (((frame.complete params).arena copies).flatMap Node.defined).Nodup := by
  have located := frame.nodes_pairwise params
  rw [Ssa.flatMap_arena _ (fun _ _ => rfl), List.nodup_append]
  refine ⟨List.nodup_flatMap.mpr ⟨?_, located.imp_of_mem ?_⟩,
    List.nodup_flatMap.mpr ⟨fun copying isCopy => List.nodup_flatMap.mpr ⟨?_, ?_⟩,
      series.nodup.imp_of_mem ?_⟩, ?_⟩
  · exact fun node member => (definesUnder_of_mem_nodes regular named member).nodup regular
  · intro node other member member' before s here there
    have first := definesUnder_of_mem_nodes regular named member
    have second := definesUnder_of_mem_nodes regular named member'
    have same := (first.eq_of_mem regular second here there).1
    omega
  · exact fun node member =>
      (definesUnder_of_mem_copy regular named series isCopy member).1.nodup regular
  · have base := series.ssa_eq copying isCopy
    refine (Copying.nodes_pairwise (base ▸ located) 0).imp_of_mem ?_
    intro node other member member' before s here there
    have first := (definesUnder_of_mem_copy regular named series isCopy member).1
    have second := (definesUnder_of_mem_copy regular named series isCopy member').1
    have same := (first.eq_of_mem regular second here there).1
    omega
  · intro copying other isCopy isOther apart s here there
    obtain ⟨node, member, here⟩ := List.mem_flatMap.mp here
    obtain ⟨node', member', there⟩ := List.mem_flatMap.mp there
    obtain ⟨first, within⟩ := definesUnder_of_mem_copy regular named series isCopy member
    obtain ⟨second, within'⟩ := definesUnder_of_mem_copy regular named series isOther member'
    obtain ⟨same, suffixes⟩ := first.eq_of_mem regular second here there
    rw [← same] at suffixes within'
    exact apart (series.eq_of_suffixOf_eq regular isCopy within isOther within' suffixes)
  · rintro s here t there rfl
    obtain ⟨node, member, here⟩ := List.mem_flatMap.mp here
    obtain ⟨copying, isCopy, there⟩ := List.mem_flatMap.mp there
    obtain ⟨node', member', there⟩ := List.mem_flatMap.mp there
    have first := definesUnder_of_mem_nodes regular named member
    obtain ⟨second, within⟩ := definesUnder_of_mem_copy regular named series isCopy member'
    have suffixes := (first.eq_of_mem regular second here there).2
    rw [Odometer.suffixOf_nil] at suffixes
    exact series.suffixOf_ne_empty regular isCopy within suffixes.symm

omit regular named in
/-- Every unwinding has a literal of its own. -/
theorem literals_nodup {copies : List Copying} (series : (frame.complete params).Series copies) :
    (copies.map Copying.literal).Nodup := by
  refine series.nodup.map_on fun copying isCopy other isOther same => ?_
  obtain ⟨heads, levels⟩ := series.eq_of_literal_eq isCopy same
  have bases := (series.ssa_eq copying isCopy).trans (series.ssa_eq other isOther).symm
  cases copying
  cases other
  simp_all

/-- No node defines the literal of an unwinding: in front of its first `#` there is no object and
nothing that nodes speak of. -/
theorem literal_not_mem_defined {copies : List Copying}
    (series : (frame.complete params).Series copies) (copying : Copying) :
    copying.literal ∉ ((frame.complete params).arena copies).flatMap Node.defined := by
  intro member
  obtain ⟨node, isNode, defined⟩ := List.mem_flatMap.mp member
  have defines : ∃ loc levels, node.DefinesUnder frame loc levels := by
    rcases Ssa.mem_arena _ isNode with isBase | ⟨other, isCopy, first, isCopied⟩
    · exact ⟨_, _, definesUnder_of_mem_nodes regular named isBase⟩
    · exact ⟨_, _, (definesUnder_of_mem_copy regular named series isCopy isCopied).1⟩
  obtain ⟨loc, levels, instruction, symbols, here, -, introduced, same⟩ := defines
  rw [same] at defined
  obtain ⟨s, isSymbol, unwound⟩ := List.mem_map.mp defined
  obtain ⟨name, isLocal, ⟨proper, text⟩⟩ :=
    named.exists_hasName regular here (introduced s isSymbol)
  obtain ⟨rest, spelling⟩ := s.isPrefix_unwound (Odometer.suffixOf levels (frame.flow.depth loc))
  obtain ⟨behind, literal⟩ : ∃ behind,
      copying.literal.name.toList = "$enable".toList ++ '#' :: behind := ⟨_, Name.toList_text _⟩
  rw [unwound, literal, text, name.toList_text, List.append_assoc, List.cons_append] at spelling
  have bases := (append_cons_inj proper.noMark (by decide) spelling).1
  exact Name.base_ne_enable (Name.isEnable_of_isLocal isLocal) proper (String.toList_inj.mp bases)

end

/-- However loops are unwound, no two definitions of the form are of the same symbol, and the
literals of the unwindings are different and defined nowhere. -/
theorem Unwinds.single_assignment {function : String} {procedure : Procedure} {table : SymbolTable}
    {ssa unwound : Ssa} (built : Ssa.build function procedure table = .ok ssa)
    (identifiers : ∀ s ∈ procedure.mentioned table, IsIdentifier s.name) {heads : List Nat}
    {u : Unwinder} (run : Unwinds ssa heads u unwound) :
    (unwound.nodes.flatMap Node.defined).Nodup ∧ unwound.enabling.Nodup ∧
      ∀ literal ∈ unwound.enabling, literal ∉ unwound.nodes.flatMap Node.defined := by
  obtain ⟨frame, isFrame, rfl⟩ := Ssa.frame_of_build built
  obtain ⟨regular, -, -⟩ := Frame.regular_of_build isFrame
  have named := Frame.named_of_build isFrame identifiers
  obtain ⟨copies, series, rfl⟩ := run.exists_series regular
  refine ⟨defined_arena_nodup regular named series, literals_nodup series, ?_⟩
  intro literal member
  obtain ⟨copying, -, rfl⟩ := List.mem_map.mp member
  exact literal_not_mem_defined regular named series copying

/-- A loop inside a loop, with one object for each. -/
def twofold : Procedure where
  params := [⟨"x", .int⟩, ⟨"y", .int⟩]
  body := [
    .assign ⟨"x", .int⟩ (.arith .add (.var ⟨"x", .int⟩) (.int 1)),
    .assign ⟨"y", .int⟩ (.arith .add (.var ⟨"y", .int⟩) (.var ⟨"x", .int⟩)),
    .goto (.nondet .bool) 1,
    .goto (.nondet .bool) 0,
    .endFunction]

/-- Both loops are unwound, the inner one also in a copy of the outer one. -/
theorem Unwinds.single_assignment_twofold : ∃ ssa u unwound,
    Ssa.build "twofold" twofold [] = .ok ssa ∧ Unwinds ssa [1, 0, 4, 1] u unwound ∧
    (∀ s ∈ twofold.mentioned [], IsIdentifier s.name) ∧
    unwound.enabling.map (·.name) = ["$enable#1%0.1", "$enable#0%1", "$enable#1%1.1"] ∧
    (unwound.nodes.flatMap Node.defined).Nodup ∧ unwound.enabling.Nodup := by
  have identifiers : ∀ s ∈ twofold.mentioned [], IsIdentifier s.name := by decide
  obtain ⟨ssa, built⟩ : ∃ ssa, Ssa.build "twofold" twofold [] = .ok ssa := ⟨_, rfl⟩
  have run : ∃ u unwound, Unwinds ssa [1, 0, 4, 1] u unwound ∧
      unwound.enabling.map (·.name) = ["$enable#1%0.1", "$enable#0%1", "$enable#1%1.1"] := by
    cases built
    exact ⟨_, _, .unwound (.refused (.unwound (.unwound .fresh rfl) rfl) rfl) rfl, by rfl⟩
  obtain ⟨u, unwound, run, literals⟩ := run
  obtain ⟨defined, enabling, -⟩ := Unwinds.single_assignment built identifiers run
  exact ⟨ssa, u, unwound, built, run, identifiers, literals, defined, enabling⟩

end TemplateAnalysis
