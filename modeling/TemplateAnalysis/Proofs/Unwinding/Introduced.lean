import TemplateAnalysis.Proofs.Ssa.Equations
import TemplateAnalysis.Proofs.Unwinding.Suffixes

/-! # Where symbols are introduced

The tag of a name tells the location at which a node may introduce it: versions, guards, conditions
and open values carry it, and what arrives over a back edge belongs to the head of its loop. So no
name is introduced at two locations, and looking a symbol up gives the one that introduces it. This
depends on nothing that programs call their objects.
-/

namespace TemplateAnalysis

namespace NameMap

variable {α β : Type}

theorem find?_insertAll (names : List String) (a : α) (m : NameMap α) (key : String) :
    NameMap.find? (names.foldl (fun m name => NameMap.insert name a m) m) key =
      if key ∈ names then some a else m.find? key := by
  induction names generalizing m with
  | nil => simp
  | cons name names ih =>
    rw [List.foldl_cons, ih, find?_insert]
    by_cases here : key = name <;> by_cases later : key ∈ names <;> simp [here, later]

/-- Where entries are written one after the other, the last one that holds a name counts. -/
theorem find?_insertEach (names : β → List String) (value : β → α) (entries : List β)
    (key : String) :
    NameMap.find? (entries.foldl (fun m entry =>
      (names entry).foldl (fun m name => NameMap.insert name (value entry) m) m) []) key =
      (entries.reverse.find? fun entry => decide (key ∈ names entry)).map value := by
  induction entries using List.reverseRecOn with
  | nil => rfl
  | append_singleton entries entry ih =>
    rw [List.foldl_append, List.foldl_cons, List.foldl_nil, find?_insertAll, ih]
    by_cases here : key ∈ names entry <;> simp [here]

end NameMap

/-- The location that a tag speaks of; what arrives over a back edge belongs to the head. -/
def Flow.homeOfTag (flow : Flow) (tag : List Char) : Option Nat :=
  let number (digits : List Char) := Nat.ofDigitChars 10 digits 0
  match tag with
  | 'i' :: _ => none
  | 'p' :: rest => some (number (rest.filter Char.isDigit))
  | 'l' :: rest => some (flow.headOf (number (rest.filter Char.isDigit)))
  | _ => some (number (tag.takeWhile Char.isDigit))

theorem isDigit_of_mem_digits {n : Nat} {c : Char} (member : c ∈ digits n) : c.isDigit = true :=
  Nat.isDigit_of_mem_toDigits (by decide) (by decide) member

/-- A tag that starts with a number speaks of that location. -/
theorem Flow.homeOfTag_digits (flow : Flow) (n : Nat) (rest : List Char)
    (ends : rest.takeWhile Char.isDigit = []) : flow.homeOfTag (digits n ++ rest) = some n := by
  have number : (digits n ++ rest).takeWhile Char.isDigit = digits n := by
    rw [List.takeWhile_append_of_pos fun c => isDigit_of_mem_digits, ends, List.append_nil]
  cases spelling : digits n with
  | nil => exact absurd spelling Nat.toDigits_ne_nil
  | cons d ds =>
    have isDigit : d.isDigit = true :=
      isDigit_of_mem_digits (n := n) (by rw [spelling]; exact List.mem_cons_self)
    unfold homeOfTag
    split
    · next here => cases here; cases isDigit
    · next here => cases here; cases isDigit
    · next here => cases here; cases isDigit
    · rw [← spelling, number]
      simp

namespace Frame

variable (frame : Frame)

/-- The location that introduces a name, for the shapes that nodes introduce. -/
def home : Name → Option Nat
  | .version _ loc => some loc
  | .phi _ loc => some loc
  | .guard loc => some loc
  | .cond loc => some loc
  | .nondet loc _ => some loc
  | .loopSelect b => some (frame.flow.headOf b)
  | .loopBack _ b => some (frame.flow.headOf b)
  | _ => none

theorem homeOfTag_tag {name : Name} (isLocal : name.isLocal = true) :
    frame.flow.homeOfTag name.tag = frame.home name := by
  have digitsOnly : ∀ n, (digits n).filter Char.isDigit = digits n := fun n =>
    List.filter_eq_self.mpr fun c => isDigit_of_mem_digits
  have plain : ∀ n, frame.flow.homeOfTag (digits n) = some n := fun n => by
    simpa using frame.flow.homeOfTag_digits n [] rfl
  cases name with
  | input object => rfl
  | version object loc => exact plain loc
  | guard loc => exact plain loc
  | cond loc => exact plain loc
  | nondet loc k => exact frame.flow.homeOfTag_digits loc _ rfl
  | phi object loc => simp [Name.tag, Flow.homeOfTag, home, digitsOnly]
  | loopSelect b => simp [Name.tag, Flow.homeOfTag, home, digitsOnly]
  | loopBack object b => simp [Name.tag, Flow.homeOfTag, home, digitsOnly]
  | _ => cases isLocal

/-- Names of one text have one home. -/
theorem home_eq_of_text_eq {m n : Name} (first : m.isLocal = true) (second : n.isLocal = true)
    (same : m.text = n.text) : frame.home m = frame.home n := by
  rw [← frame.homeOfTag_tag first, ← frame.homeOfTag_tag second,
    Name.tag_eq_of_text_eq first second same]

variable {frame}

/-- What an instruction defines is a version of an object that it mentions or returns, or the
condition of its location. -/
theorem mem_effect {definitions : Definitions} {loc : Nat} {instruction : Instruction}
    {e : Equality} (member : e ∈ (frame.effect definitions loc instruction).equalities) :
    (∃ object ∈ instruction.mentioned ++ instruction.returned,
      e.lhs.name = (Name.version object.name loc).text) ∨ e.lhs.name = (Name.cond loc).text := by
  have branch : ∀ condition, e ∈ (effect.branch definitions loc condition).equalities →
      e.lhs.name = (Name.cond loc).text := by
    intro condition member
    unfold effect.branch at member
    split at member
    · cases member
    · rw [List.mem_singleton.mp member]
      rfl
  cases instruction with
  | decl object =>
    rw [List.mem_singleton.mp member]
    exact .inl ⟨object, by simp [Instruction.mentioned, Instruction.writes], rfl⟩
  | assign target value =>
    rw [List.mem_singleton.mp member]
    exact .inl ⟨target, by simp [Instruction.mentioned, Instruction.writes], rfl⟩
  | ret value =>
    cases value with
    | none => cases member
    | some value =>
      rw [List.mem_singleton.mp member]
      exact .inl ⟨⟨returnValue, value.sort⟩, by simp [Instruction.returned], rfl⟩
  | goto condition target => exact .inr (branch condition member)
  | assume condition => exact .inr (branch condition member)
  | _ => cases member

/-- The definitions over which an instruction has its effect. -/
theorem exists_effectAt (frame : Frame) (loc : Nat) (instruction : Instruction) :
    frame.effectAt loc instruction = {} ∨
      ∃ definitions, frame.effectAt loc instruction = frame.effect definitions loc instruction := by
  unfold effectAt
  split
  · exact .inr ⟨_, rfl⟩
  · exact .inl rfl

theorem mem_effectAt {loc : Nat} {instruction : Instruction} {e : Equality}
    (member : e ∈ (frame.effectAt loc instruction).equalities) :
    (∃ object ∈ instruction.mentioned ++ instruction.returned,
      e.lhs.name = (Name.version object.name loc).text) ∨ e.lhs.name = (Name.cond loc).text := by
  rcases frame.exists_effectAt loc instruction with none | ⟨definitions, same⟩
  · rw [none] at member
    cases member
  · exact mem_effect (same ▸ member)

/-- A call writes versions of its result and of the globals. -/
theorem mem_calls {loc : Nat} {instruction : Instruction} {call : Call}
    (member : call ∈ (frame.effectAt loc instruction).calls) :
    ∃ result callee arguments, instruction = .call result callee arguments ∧
      call.result = result.map (fun s => (Name.version s.name loc).symbol s.sort) ∧
      call.globalsOut = frame.globals.map (Definition.assigned loc).version := by
  rcases frame.exists_effectAt loc instruction with none | ⟨definitions, same⟩
  · rw [none] at member
    cases member
  · rw [same] at member
    have branch : ∀ condition, call ∉ (effect.branch definitions loc condition).calls := by
      intro condition
      unfold effect.branch
      split <;> exact List.not_mem_nil
    cases instruction with
    | call result callee arguments =>
      rw [List.mem_singleton.mp member]
      exact ⟨result, callee, arguments, rfl, rfl, rfl⟩
    | goto condition target => exact absurd member (branch condition)
    | assume condition => exact absurd member (branch condition)
    | ret value => cases value <;> cases member
    | _ => cases member

variable (frame) in
/-- A text that a location introduces, with the name of which it is the text. -/
structure Introduces (loc : Nat) (instruction : Instruction) (text : String) (name : Name) :
    Prop where
  isLocal : name.isLocal = true
  text_eq : text = name.text
  home_eq : frame.home name = some loc
  object_mem : ∀ object ∈ name.object?,
    ∃ s ∈ frame.objects ++ (instruction.mentioned ++ instruction.returned), s.name = object

namespace Regular

variable {table : SymbolTable} (regular : frame.Regular table)
include regular

/-- What a location introduces has its home there. -/
theorem exists_introduces {loc : Nat} {instruction : Instruction} {text : String}
    (member : text ∈ frame.introduced loc instruction) :
    ∃ name, frame.Introduces loc instruction text name := by
  have version : ∀ object ∈ frame.objects ++ (instruction.mentioned ++ instruction.returned),
      text = (Name.version object.name loc).text →
      ∃ name, frame.Introduces loc instruction text name := by
    intro object isObject same
    refine ⟨.version object.name loc, rfl, same, rfl, ?_⟩
    rintro name ⟨⟩
    exact ⟨object, isObject, rfl⟩
  have merged : ∀ object ∈ frame.mergedObjects loc, object ∈ frame.objects := by
    intro object isMerged
    by_cases inside : loc < frame.body.length
    · exact ((regular.mem_mergedObjects inside).mp isMerged).1
    · rw [← regular.length_reaching] at inside
      simp [mergedObjects, List.getElem?_eq_none (Nat.le_of_not_lt inside)] at isMerged
  simp only [introduced, List.mem_append, List.mem_map, List.mem_flatMap, nodeAt,
    List.mem_cons] at member
  rcases member with ((⟨e, merges | rfl | effect, rfl⟩ | ⟨k, -, rfl⟩) | called) | back
  · obtain ⟨object, isMerged, found⟩ := List.mem_filterMap.mp merges
    obtain ⟨value, -, rfl⟩ := Option.map_eq_some_iff.mp found
    refine ⟨.phi object.name loc, rfl, rfl, rfl, ?_⟩
    rintro name ⟨⟩
    exact ⟨object, List.mem_append_left _ (merged object isMerged), rfl⟩
  · exact ⟨.guard loc, rfl, rfl, rfl, by simp [Name.object?]⟩
  · rcases mem_effectAt effect with ⟨object, isMentioned, same⟩ | same
    · exact version object (List.mem_append_right _ isMentioned) same
    · exact ⟨.cond loc, rfl, same, rfl, by simp [Name.object?]⟩
  · exact ⟨.nondet loc k, rfl, rfl, rfl, by simp [Name.object?]⟩
  · obtain ⟨call, isCall, written⟩ := called
    obtain ⟨result, callee, arguments, rfl, results, globals⟩ := mem_calls isCall
    rw [results, globals] at written
    rcases written with isResult | ⟨out, isOut, rfl⟩
    · simp only [Option.map_map, Option.mem_toList, Option.map_eq_some_iff] at isResult
      obtain ⟨s, rfl, rfl⟩ := isResult
      exact version s (by simp [Instruction.mentioned, Instruction.writes]) rfl
    · obtain ⟨global, isGlobal, rfl⟩ := List.mem_map.mp isOut
      rw [regular.globals_eq] at isGlobal
      exact version global (List.mem_append_left _ (List.mem_of_mem_filter isGlobal)) rfl
  · obtain ⟨b, isBack, arrives⟩ := back
    have head := regular.headOf_eq isBack
    rcases arrives with rfl | ⟨object, isMerged, rfl⟩
    · exact ⟨.loopSelect b, rfl, rfl, congrArg some head, by simp [Name.object?]⟩
    · refine ⟨.loopBack object.name b, rfl, rfl, congrArg some head, ?_⟩
      rintro name ⟨⟩
      exact ⟨object, List.mem_append_left _ (merged object isMerged), rfl⟩

/-- A name is introduced at one location at most. -/
theorem introduced_unique {loc other : Nat} {instruction instruction' : Instruction}
    {text : String} (first : text ∈ frame.introduced loc instruction)
    (second : text ∈ frame.introduced other instruction') : loc = other := by
  obtain ⟨m, isLocal, rfl, home, -⟩ := regular.exists_introduces first
  obtain ⟨n, isLocal', same, home', -⟩ := regular.exists_introduces second
  have homes := frame.home_eq_of_text_eq isLocal isLocal' same
  rw [home, home'] at homes
  exact Option.some.inj homes

/-- Looking a symbol up gives the location that introduces it. -/
theorem definedAt?_eq_some_iff {params : List Symbol} {s : Symbol} {loc : Nat} :
    (frame.complete params).definedAt? s = some loc ↔ ∃ instruction,
      frame.body[loc]? = some instruction ∧ s.name ∈ frame.introduced loc instruction := by
  have look : (frame.complete params).definedAt? s = (frame.body.zipIdx.reverse.find? fun entry =>
      decide (s.name ∈ frame.introduced entry.2 entry.1)).map (·.2) :=
    NameMap.find?_insertEach (fun entry : Instruction × Nat => frame.introduced entry.2 entry.1)
      (·.2) frame.body.zipIdx s.name
  rw [look, Option.map_eq_some_iff]
  constructor
  · rintro ⟨⟨instruction, _⟩, found, rfl⟩
    have located := List.mem_reverse.mp (List.mem_of_find?_eq_some found)
    exact ⟨instruction, List.mem_zipIdx_iff_getElem?.mp located, by
      simpa using List.find?_some found⟩
  · rintro ⟨instruction, here, member⟩
    have located : (instruction, loc) ∈ frame.body.zipIdx.reverse :=
      List.mem_reverse.mpr (List.mem_zipIdx_iff_getElem?.mpr here)
    cases found : frame.body.zipIdx.reverse.find? fun entry =>
        decide (s.name ∈ frame.introduced entry.2 entry.1) with
    | none => simpa [member] using List.find?_eq_none.mp found _ located
    | some entry =>
      have isHere : s.name ∈ frame.introduced entry.2 entry.1 := by
        simpa using List.find?_some found
      exact ⟨entry, rfl, regular.introduced_unique isHere member⟩

/-- A symbol that is looked up is found at the home of its name. -/
theorem home_of_definedAt? {params : List Symbol} (name : Name) (isLocal : name.isLocal = true)
    {sort : ValueSort} {loc : Nat}
    (found : (frame.complete params).definedAt? (name.symbol sort) = some loc) :
    frame.home name = some loc := by
  obtain ⟨instruction, -, member⟩ := regular.definedAt?_eq_some_iff.mp found
  obtain ⟨other, isLocal', same, home, -⟩ := regular.exists_introduces member
  rw [frame.home_eq_of_text_eq isLocal isLocal' same, home]

end Regular

end Frame

end TemplateAnalysis
