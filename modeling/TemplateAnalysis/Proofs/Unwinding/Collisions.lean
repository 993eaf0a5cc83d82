import TemplateAnalysis.Proofs.Unwinding.Suffixes

/-! # Names and their copies never collide

Neither a base nor a suffix holds a `#`, and only the literal of an unwinding has a `%` of its own.
So the text of a copy can be read back: up to the first `#` the base, which tells the literals of
unwindings from the rest, then the tag, and behind the last `%` the suffix. Suffixes in turn tell
the counters they show.
-/

namespace TemplateAnalysis

/-- A beginning without the separator lies in front of it. -/
theorem isPrefix_of_isPrefix_append_cons {α : Type} {a : α} {front xs ys : List α}
    (absent : a ∉ front) (begins : front <+: xs ++ a :: ys) : front <+: xs := by
  by_cases short : front.length ≤ xs.length
  · exact List.prefix_of_prefix_length_le begins (List.prefix_append _ _) short
  · have separated : xs ++ [a] <+: xs ++ a :: ys := ⟨ys, by simp⟩
    have inside : xs ++ [a] <+: front :=
      List.prefix_of_prefix_length_le separated begins (by simp; omega)
    exact absurd (inside.subset (by simp)) absent

namespace Odometer

variable {levels others : List Nat} {depth : Nat}

theorem getElem?_padded {i : Nat} (inside : i < depth) :
    (padded levels depth)[i]? = some (levels.getD i 0) := by
  rw [padded, List.getElem?_append, List.length_take]
  by_cases counted : i < levels.length
  · rw [if_pos (by omega), List.getElem?_take_of_lt inside]
    simp [counted]
  · rw [if_neg (by omega), List.getElem?_replicate_of_lt (by omega)]
    simp [Nat.le_of_not_lt counted]

theorem padded_eq_iff : padded levels depth = padded others depth ↔
    ∀ i < depth, levels.getD i 0 = others.getD i 0 := by
  constructor
  · intro same i inside
    have entries := congrArg (·[i]?) same
    simpa only [getElem?_padded inside, Option.some.injEq] using entries
  · intro same
    apply List.ext_getElem?
    intro i
    by_cases inside : i < depth
    · rw [getElem?_padded inside, getElem?_padded inside, same i inside]
    · rw [List.getElem?_eq_none (by simp; omega), List.getElem?_eq_none (by simp; omega)]

/-- At one depth, suffixes are equal exactly if they show the same counters. -/
theorem suffixOf_eq_iff : suffixOf levels depth = suffixOf others depth ↔
    ∀ i < depth, levels.getD i 0 = others.getD i 0 := by
  rw [← padded_eq_iff]
  constructor
  · intro same
    by_cases empty : suffixOf levels depth = ""
    · apply padded_eq_of_trimmed_padded_eq
      rw [suffixOf_eq_empty.mp empty, suffixOf_eq_empty.mp (same ▸ empty)]
    · exact padded_eq_of_suffixOf_eq empty same
  · intro same
    rw [suffixOf, suffixOf, same]

end Odometer

/-- The suffix of some unwinding. -/
def IsSuffix (suffix : String) : Prop := ∃ levels depth, suffix = Odometer.suffixOf levels depth

theorem IsSuffix.not_mem {suffix : String} (isSuffix : IsSuffix suffix) {c : Char}
    (noDigit : c.isDigit = false) (noDot : c ≠ '.') : c ∉ suffix.toList := by
  obtain ⟨levels, depth, rfl⟩ := isSuffix
  exact Odometer.not_mem_suffixOf noDigit noDot levels depth

namespace Name

/-- A name over proper objects in which the suffix, if it has one, is that of an unwinding. -/
structure IsWellFormed (name : Name) : Prop where
  proper : name.IsProper
  suffix : ∀ head suffix, name = .enable head suffix → IsSuffix suffix

variable {name m n : Name} {sort sort' : ValueSort} {suffix other : String}

theorem toList_unwound (name : Name) (sort : ValueSort) (suffix : String) :
    ((name.symbol sort).unwound suffix).name.toList =
      name.base.toList ++ '#' :: (name.tag ++ Symbol.mark suffix) := by
  simp [Symbol.toList_unwound, symbol, toList_text]

theorem not_isIdentifier_unwound (name : Name) (sort : ValueSort) (suffix : String) :
    ¬ IsIdentifier ((name.symbol sort).unwound suffix).name := by
  rintro ⟨noMark, -⟩
  rw [toList_unwound] at noMark
  simp at noMark

/-- The object of a copy is the base of its name. -/
theorem object_unwound (noMark : '#' ∉ name.base.toList) (sort : ValueSort) (suffix : String) :
    ((name.symbol sort).unwound suffix).object = name.base :=
  Symbol.object_eq noMark (toList_unwound name sort suffix)

theorem isEnable_iff (proper : name.IsProper) : name.isEnable = true ↔ name.base = "$enable" := by
  constructor
  · intro isEnable
    cases name with
    | enable head suffix => rfl
    | _ => cases isEnable
  · intro called
    by_contra other
    exact base_ne_enable (Bool.eq_false_iff.mpr other) proper called

theorem IsWellFormed.not_mem_tag (wellFormed : name.IsWellFormed) : '#' ∉ name.tag := by
  cases name with
  | enable head suffix =>
    have absent := (wellFormed.suffix head suffix rfl).not_mem (c := '#') (by decide) (by decide)
    have noDigit : '#' ∉ digits head := not_mem_digits (by decide) head
    simp [tag, noDigit, absent]
  | _ => exact Name.not_mem_tag rfl (by decide) (by decide)

/-- Behind one base, a tag and the mark of a suffix are told apart. -/
theorem tag_eq_of_append_mark_eq (first : m.IsWellFormed) (second : n.IsWellFormed)
    (bases : m.base = n.base) (same : m.tag ++ Symbol.mark suffix = n.tag ++ Symbol.mark other) :
    m.tag = n.tag ∧ suffix = other := by
  have kinds : m.isEnable = n.isEnable := by
    rw [Bool.eq_iff_iff, isEnable_iff first.proper, isEnable_iff second.proper, bases]
  cases kind : m.isEnable with
  | false =>
    exact Symbol.append_mark_inj (not_mem_tag kind (by decide) (by decide))
      (not_mem_tag (kinds ▸ kind) (by decide) (by decide)) same
  | true =>
    rw [kind] at kinds
    cases m <;> cases kind
    cases n <;> cases kinds
    next head inner head' inner' =>
    -- the first `%` is the one inside the name
    have split : digits head ++ '%' :: (inner.toList ++ Symbol.mark suffix) =
        digits head' ++ '%' :: (inner'.toList ++ Symbol.mark other) := by
      simpa [tag] using same
    obtain ⟨rfl, rest⟩ := digits_append_inj (by decide) split
    obtain ⟨inners, suffixes⟩ := Symbol.append_mark_inj
      ((first.suffix _ _ rfl).not_mem (by decide) (by decide))
      ((second.suffix _ _ rfl).not_mem (by decide) (by decide)) rest
    exact ⟨by rw [tag, tag, inners], suffixes⟩

/-- Copies with the same text are copies of one name under one suffix. -/
theorem eq_of_unwound_eq (first : m.IsWellFormed) (second : n.IsWellFormed)
    (same : ((m.symbol sort).unwound suffix).name = ((n.symbol sort').unwound other).name) :
    m = n ∧ suffix = other := by
  have split := congrArg String.toList same
  rw [toList_unwound, toList_unwound] at split
  obtain ⟨bases, tails⟩ := append_cons_inj first.proper.noMark second.proper.noMark split
  obtain ⟨tags, suffixes⟩ :=
    tag_eq_of_append_mark_eq first second (String.toList_inj.mp bases) tails
  refine ⟨text_injective first.proper second.proper (String.toList_inj.mp ?_), suffixes⟩
  rw [toList_text, toList_text, bases, tags]

section Inputs

/-- Only entry values have the tag of one. -/
theorem exists_input_of_tag_eq (isIn : name.tag = ['i', 'n']) : ∃ object, name = .input object := by
  have digits_ne : ∀ {k rest}, digits k ≠ 'i' :: rest := digits_ne_cons (by decide) _ _
  have append_ne : ∀ {k xs rest}, digits k ++ xs ≠ 'i' :: rest :=
    digits_append_ne (by decide) _ _ _
  cases name with
  | input object => exact ⟨object, rfl⟩
  | version object loc => exact absurd isIn digits_ne
  | phi object loc => simp [tag] at isIn
  | loopBack object backEdge => simp [tag] at isIn
  | loopSelect backEdge => simp [tag] at isIn
  | guard loc => exact absurd isIn digits_ne
  | cond loc => exact absurd isIn digits_ne
  | nondet loc k => exact absurd isIn append_ne
  | enable head suffix => exact absurd isIn append_ne
  | violation domain row => exact absurd isIn append_ne
  | coefficient domain row component index => exact absurd isIn append_ne

/-- The text ends like that of an entry value exactly for entry values without a suffix. -/
theorem endsAsInput_unwound_iff (wellFormed : name.IsWellFormed) (isSuffix : IsSuffix suffix) :
    "#in".toList <:+ ((name.symbol sort).unwound suffix).name.toList ↔
      suffix = "" ∧ ∃ object, name = .input object := by
  rw [toList_unwound]
  constructor
  · rintro ⟨front, same⟩
    have free : '#' ∉ name.tag ++ Symbol.mark suffix := by
      rw [List.mem_append, not_or]
      exact ⟨wellFormed.not_mem_tag,
        Symbol.not_mem_mark (by decide) (isSuffix.not_mem (by decide) (by decide))⟩
    have tails : ['i', 'n'] = name.tag ++ Symbol.mark suffix :=
      (append_cons_inj_right (by decide) free same).2
    have noPercent : '%' ∉ name.tag := by
      intro member
      have among : '%' ∈ ['i', 'n'] := tails ▸ List.mem_append_left _ member
      exact absurd among (by decide)
    have ends : ['i', 'n'] ++ Symbol.mark "" = name.tag ++ Symbol.mark suffix := tails
    obtain ⟨isIn, empty⟩ := Symbol.append_mark_inj (by decide) noPercent ends
    exact ⟨empty.symm, exists_input_of_tag_eq isIn.symm⟩
  · rintro ⟨rfl, object, rfl⟩
    exact ⟨object.toList, by simp [base, tag, Symbol.mark]⟩

/-- The text begins like that of an open value exactly for open values. -/
theorem beginsAsNondet_unwound_iff (proper : name.IsProper) :
    "$nondet".toList <+: ((name.symbol sort).unwound suffix).name.toList ↔
      ∃ loc k, name = .nondet loc k := by
  rw [toList_unwound]
  constructor
  · intro begins
    have inside := isPrefix_of_isPrefix_append_cons (by decide) begins
    have noObject : ∀ {object}, IsObjectName object → ¬ "$nondet".toList <+: object.toList := by
      rintro object (identifier | rfl) ⟨rest, same⟩
      · exact identifier.2 (by rw [← same]; rfl)
      · exact absurd ⟨rest, same⟩ (by decide : ¬ "$nondet".toList <+: returnValue.toList)
    cases name with
    | input object => exact absurd inside (noObject (proper object rfl))
    | version object loc => exact absurd inside (noObject (proper object rfl))
    | phi object loc => exact absurd inside (noObject (proper object rfl))
    | loopBack object backEdge => exact absurd inside (noObject (proper object rfl))
    | nondet loc k => exact ⟨loc, k, rfl⟩
    | _ => exact absurd inside (by simp [base])
  · rintro ⟨loc, k, rfl⟩
    exact List.prefix_append _ _

theorem isInput_unwound_iff (wellFormed : name.IsWellFormed) (isSuffix : IsSuffix suffix) :
    ((name.symbol sort).unwound suffix).isInput = true ↔
      (suffix = "" ∧ ∃ object, name = .input object) ∨ ∃ loc k, name = .nondet loc k := by
  rw [Symbol.isInput, Bool.or_eq_true, List.isSuffixOf_iff_suffix, List.isPrefixOf_iff_prefix,
    endsAsInput_unwound_iff wellFormed isSuffix, beginsAsNondet_unwound_iff wellFormed.proper]

end Inputs

/-- Names and their copies never collide, neither with each other nor with identifiers, and what is
read off their texts is right: the counters off a suffix, the object off a copy, and whether a copy
is an entry value or an open value. -/
theorem never_collide :
    (∀ m n : Name, m.IsWellFormed → n.IsWellFormed → ∀ t u sort sort',
      ((m.symbol sort).unwound t).name = ((n.symbol sort').unwound u).name → m = n ∧ t = u) ∧
    (∀ (name : Name) sort t, ¬ IsIdentifier ((name.symbol sort).unwound t).name) ∧
    (∀ levels others depth, Odometer.suffixOf levels depth = Odometer.suffixOf others depth ↔
      ∀ i < depth, levels.getD i 0 = others.getD i 0) ∧
    (∀ levels others depth depth', Odometer.suffixOf levels depth ≠ "" →
      Odometer.suffixOf others depth' ≠ "" → depth ≠ depth' →
      Odometer.suffixOf levels depth ≠ Odometer.suffixOf others depth') ∧
    (∀ (name : Name) object, name.object? = some object → '#' ∉ object.toList →
      ∀ sort t, ((name.symbol sort).unwound t).object = object) ∧
    (∀ name : Name, name.IsWellFormed → ∀ t, IsSuffix t → ∀ sort,
      (((name.symbol sort).unwound t).isInput = true ↔
        (t = "" ∧ ∃ object, name = .input object) ∨ ∃ loc k, name = .nondet loc k)) := by
  refine ⟨?_, not_isIdentifier_unwound, fun _ _ _ => Odometer.suffixOf_eq_iff, ?_, ?_, ?_⟩
  · intro m n first second t u sort sort' same
    exact eq_of_unwound_eq first second same
  · intro levels others depth depth' unwound _ apart same
    exact apart (Odometer.depth_eq_of_suffixOf_eq unwound same)
  · intro name object speaks noMark sort t
    have base := base_of_object? speaks
    rw [object_unwound (base ▸ noMark), base]
  · intro name wellFormed t isSuffix sort
    exact isInput_unwound_iff wellFormed isSuffix

/-- Literals of unwindings with the counters on either side of the second `%`, and a copy of an open
value. -/
theorem never_collide_enabling :
    (enable 3 "1.2").IsWellFormed ∧ (enable 3 "1").IsWellFormed ∧ IsSuffix "1" ∧
      ((enable 3 "1.2").bool.unwound "1").name ≠ ((enable 3 "1").bool.unwound "1.2").name ∧
      ((version "x" 5).int.unwound "1").object = "x" ∧
      ((nondet 5 0).int.unwound "1").isInput = true := by
  have isPair : IsSuffix "1.2" := ⟨[1, 2], 2, by decide⟩
  have isSingle : IsSuffix "1" := ⟨[1], 1, by decide⟩
  have wellFormed : ∀ {head suffix}, IsSuffix suffix → (enable head suffix).IsWellFormed := by
    intro head suffix isSuffix
    refine ⟨isProper_of_none rfl, ?_⟩
    rintro _ _ ⟨⟩
    exact isSuffix
  have opened : (nondet 5 0).IsWellFormed := by
    refine ⟨isProper_of_none rfl, ?_⟩
    rintro _ _ ⟨⟩
  obtain ⟨apart, -, -, -, objects, inputs⟩ := never_collide
  refine ⟨wellFormed isPair, wellFormed isSingle, isSingle, ?_, ?_, ?_⟩
  · intro same
    have suffixes := (apart _ _ (wellFormed isPair) (wellFormed isSingle) _ _ _ _ same).2
    exact absurd suffixes (by decide)
  · exact objects _ "x" rfl (by decide) .int "1"
  · exact (inputs _ opened "1" isSingle .int).mpr (.inr ⟨5, 0, rfl⟩)

end Name

end TemplateAnalysis
