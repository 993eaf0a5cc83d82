import Mathlib.Data.List.DropRight
import TemplateAnalysis.Odometer
import TemplateAnalysis.Proofs.Names

/-! # Unwinding suffixes are unambiguous

Counters are written with dots between them, so the suffix of an unwinding tells the counters, up to
zeros at the end: without them an unwinding whose last counter is not zero is determined. Behind the
`#` of an auxiliary name there is neither another `#` nor a `%`, so a copy of a symbol tells both
the symbol and the suffix.
-/

namespace TemplateAnalysis

/-- The last separator splits a list in one way only. -/
theorem append_cons_inj_right {α : Type} {a : α} {xs ys us vs : List α} (first : a ∉ ys)
    (second : a ∉ vs) (same : xs ++ a :: ys = us ++ a :: vs) : xs = us ∧ ys = vs := by
  have reversed : ys.reverse ++ a :: xs.reverse = vs.reverse ++ a :: us.reverse := by
    simpa using congrArg List.reverse same
  obtain ⟨behind, before⟩ := append_cons_inj (by simpa using first) (by simpa using second) reversed
  exact ⟨List.reverse_injective before, List.reverse_injective behind⟩

namespace Odometer

/-- The characters of counters with dots between them. -/
def spelled : List Nat → List Char
  | [] => []
  | [level] => digits level
  | level :: next :: rest => digits level ++ '.' :: spelled (next :: rest)

theorem toList_dotted (levels : List Nat) : (dotted levels).toList = spelled levels := by
  fun_induction spelled levels with
  | case1 => simp [dotted]
  | case2 level => simp [dotted]
  | case3 level next rest ih =>
    have split : dotted (level :: next :: rest) =
        toString level ++ "." ++ dotted (next :: rest) := by
      simp [dotted]
    rw [split, String.toList_append, String.toList_append, ih]
    simp

theorem not_mem_spelled {c : Char} (noDigit : c.isDigit = false) (noDot : c ≠ '.')
    (levels : List Nat) : c ∉ spelled levels := by
  fun_induction spelled levels with
  | case1 => exact List.not_mem_nil
  | case2 level => exact not_mem_digits noDigit level
  | case3 level next rest ih =>
    rw [List.mem_append, List.mem_cons, not_or, not_or]
    exact ⟨not_mem_digits noDigit level, noDot, ih⟩

theorem spelled_ne_nil {level : Nat} {rest : List Nat} : spelled (level :: rest) ≠ [] := by
  cases rest with
  | nil => exact Nat.toDigits_ne_nil
  | cons next rest => exact List.append_ne_nil_of_right_ne_nil _ (List.cons_ne_nil _ _)

theorem spelled_injective {levels others : List Nat} (same : spelled levels = spelled others) :
    levels = others := by
  have single : ∀ {level next first : Nat} {rest : List Nat},
      digits level ≠ spelled (first :: next :: rest) := by
    intro level next first rest same
    have dot : '.' ∈ spelled (first :: next :: rest) :=
      List.mem_append_right _ List.mem_cons_self
    rw [← same] at dot
    exact not_mem_digits (by decide) level dot
  induction levels generalizing others with
  | nil =>
    cases others with
    | nil => rfl
    | cons first rest => exact absurd same.symm spelled_ne_nil
  | cons level levels ih =>
    cases others with
    | nil => exact absurd same spelled_ne_nil
    | cons first rest =>
      cases levels with
      | nil =>
        cases rest with
        | nil => rw [digits_injective same]
        | cons next rest => exact absurd same single
      | cons second levels =>
        cases rest with
        | nil => exact absurd same.symm single
        | cons next rest =>
          obtain ⟨rfl, tails⟩ := digits_append_inj (by decide) same
          rw [ih tails]

theorem dotted_injective {levels others : List Nat} (same : dotted levels = dotted others) :
    levels = others := by
  apply spelled_injective
  rw [← toList_dotted, ← toList_dotted, same]

@[simp] theorem length_padded (levels : List Nat) (depth : Nat) :
    (padded levels depth).length = depth := by
  simp only [padded, List.length_append, List.length_take, List.length_replicate]
  omega

@[simp] theorem padded_length (levels : List Nat) : padded levels levels.length = levels := by
  simp [padded]

theorem padded_of_length_le {levels : List Nat} {depth : Nat} (fits : levels.length ≤ depth) :
    padded levels depth = levels ++ List.replicate (depth - levels.length) 0 := by
  rw [padded, List.take_of_length_le fits]

/-- The counters without the zeros at the end. -/
def trimmed (levels : List Nat) : List Nat := levels.rdropWhile (· == 0)

theorem trimmed_append_replicate (levels : List Nat) (count : Nat) :
    trimmed (levels ++ List.replicate count 0) = trimmed levels := by
  induction count with
  | zero => simp
  | succ count ih =>
    rw [List.replicate_succ', ← List.append_assoc, ← ih]
    exact List.rdropWhile_concat_pos (· == 0) _ 0 rfl

theorem trimmed_concat {level : Nat} (levels : List Nat) (counted : level ≠ 0) :
    trimmed (levels ++ [level]) = levels ++ [level] :=
  List.rdropWhile_concat_neg _ _ _ (by simpa using counted)

/-- What the zeros at the end were cut from. -/
theorem exists_trimmed (levels : List Nat) :
    ∃ count, levels = trimmed levels ++ List.replicate count 0 := by
  induction levels using List.reverseRecOn with
  | nil => exact ⟨0, rfl⟩
  | append_singleton levels level ih =>
    by_cases zero : level = 0
    · obtain ⟨count, same⟩ := ih
      subst zero
      have cut : trimmed (levels ++ [0]) = trimmed levels := trimmed_append_replicate levels 1
      refine ⟨count + 1, ?_⟩
      rw [cut, List.replicate_succ', ← List.append_assoc, ← same]
    · exact ⟨0, by simp [trimmed_concat levels zero]⟩

/-- The last counter that is left is not zero. -/
theorem trimmed_cases (levels : List Nat) :
    trimmed levels = [] ∨ ∃ front level, trimmed levels = front ++ [level + 1] := by
  induction levels using List.reverseRecOn with
  | nil => exact .inl rfl
  | append_singleton levels level ih =>
    cases level with
    | zero => rwa [show trimmed (levels ++ [0]) = trimmed levels from trimmed_append_replicate _ 1]
    | succ level => exact .inr ⟨levels, level, trimmed_concat levels (Nat.succ_ne_zero level)⟩

theorem trimmed_padded {levels : List Nat} {depth : Nat} (fits : levels.length ≤ depth) :
    trimmed (padded levels depth) = trimmed levels := by
  rw [padded_of_length_le fits, trimmed_append_replicate]

/-- A suffix is empty where nothing has been unwound. -/
theorem suffixOf_eq_empty {levels : List Nat} {depth : Nat} :
    suffixOf levels depth = "" ↔ trimmed (padded levels depth) = [] := by
  have zeros : trimmed (padded levels depth) = [] ↔ ∀ level ∈ padded levels depth, level = 0 := by
    simp [trimmed, List.rdropWhile_eq_nil_iff]
  rw [zeros, suffixOf]
  split
  · next all => simpa using all
  · next notAll =>
    constructor
    · intro empty
      have spelling := toList_dotted (padded levels depth)
      rw [empty] at spelling
      cases same : padded levels depth with
      | nil => simp
      | cons level rest =>
        rw [same] at spelling
        exact absurd spelling.symm spelled_ne_nil
    · intro all
      simp only [List.all_eq_true, beq_iff_eq] at notAll
      exact absurd all notAll

/-- Counters of which the last is not zero have a suffix from their own depth on. -/
theorem suffixOf_concat_ne_empty {outer : List Nat} {level depth : Nat}
    (fits : (outer ++ [level + 1]).length ≤ depth) :
    suffixOf (outer ++ [level + 1]) depth ≠ "" := by
  rw [Ne, suffixOf_eq_empty, trimmed_padded fits, trimmed_concat outer (Nat.succ_ne_zero level)]
  simp

theorem suffixOf_of_zeros {levels : List Nat} (zeros : ∀ level ∈ levels, level = 0)
    (depth : Nat) : suffixOf levels depth = "" := by
  have all : (padded levels depth).all (· == 0) = true := by
    simp only [padded, List.all_append, Bool.and_eq_true, List.all_eq_true, beq_iff_eq]
    exact ⟨fun level member => zeros level (List.mem_of_mem_take member), by simp⟩
  exact if_pos all

@[simp] theorem suffixOf_nil (depth : Nat) : suffixOf [] depth = "" :=
  suffixOf_of_zeros (by simp) depth

/-- A suffix that is not empty tells the counters. -/
theorem padded_eq_of_suffixOf_eq {levels others : List Nat} {depth depth' : Nat}
    (unwound : suffixOf levels depth ≠ "")
    (same : suffixOf levels depth = suffixOf others depth') :
    padded levels depth = padded others depth' := by
  have unwound' : suffixOf others depth' ≠ "" := same ▸ unwound
  unfold suffixOf at same unwound unwound'
  split at same
  · next all => exact absurd (if_pos all) unwound
  · split at same
    · next all => exact absurd (if_pos all) unwound'
    · exact dotted_injective same

/-- A suffix tells the depth at which it was written. -/
theorem depth_eq_of_suffixOf_eq {levels others : List Nat} {depth depth' : Nat}
    (unwound : suffixOf levels depth ≠ "") (same : suffixOf levels depth = suffixOf others depth') :
    depth = depth' := by
  have lengths := congrArg List.length (padded_eq_of_suffixOf_eq unwound same)
  simpa using lengths

/-- At one depth, suffixes tell the counters up to zeros at the end. -/
theorem trimmed_eq_of_suffixOf_eq {levels others : List Nat} {depth : Nat}
    (fits : levels.length ≤ depth) (fits' : others.length ≤ depth)
    (same : suffixOf levels depth = suffixOf others depth) : trimmed levels = trimmed others := by
  rw [← trimmed_padded fits, ← trimmed_padded fits']
  by_cases empty : suffixOf levels depth = ""
  · rw [suffixOf_eq_empty.mp empty, suffixOf_eq_empty.mp (same ▸ empty)]
  · rw [padded_eq_of_suffixOf_eq empty same]

/-- At one depth, counters agree if they do without the zeros at the end. -/
theorem padded_eq_of_trimmed_padded_eq {levels others : List Nat} {depth : Nat}
    (same : trimmed (padded levels depth) = trimmed (padded others depth)) :
    padded levels depth = padded others depth := by
  obtain ⟨count, first⟩ := exists_trimmed (padded levels depth)
  obtain ⟨count', second⟩ := exists_trimmed (padded others depth)
  rw [same] at first
  have lengths := congrArg List.length first
  have lengths' := congrArg List.length second
  simp only [length_padded, List.length_append, List.length_replicate] at lengths lengths'
  obtain rfl : count = count' := by omega
  rw [first, ← second]

theorem padded_eq_of_trimmed_eq {levels others : List Nat} {depth : Nat}
    (fits : levels.length ≤ depth) (fits' : others.length ≤ depth)
    (same : trimmed levels = trimmed others) : padded levels depth = padded others depth := by
  apply padded_eq_of_trimmed_padded_eq
  rw [trimmed_padded fits, trimmed_padded fits', same]

theorem suffixOf_eq_of_trimmed_eq {levels others : List Nat} {depth : Nat}
    (fits : levels.length ≤ depth) (fits' : others.length ≤ depth)
    (same : trimmed levels = trimmed others) : suffixOf levels depth = suffixOf others depth := by
  simp only [suffixOf, padded_eq_of_trimmed_eq fits fits' same]

theorem not_mem_suffixOf {c : Char} (noDigit : c.isDigit = false) (noDot : c ≠ '.')
    (levels : List Nat) (depth : Nat) : c ∉ (suffixOf levels depth).toList := by
  unfold suffixOf
  split
  · simp
  · rw [toList_dotted]
    exact not_mem_spelled noDigit noDot _

end Odometer

/-- A name with a `#` behind which there is neither another one nor a `%`. -/
def IsPlain (name : String) : Prop :=
  ∃ base tag, name.toList = base ++ '#' :: tag ∧ '#' ∉ tag ∧ '%' ∉ tag

namespace Name

/-- Names that nodes speak of, as against those of unwindings and templates. -/
def isLocal : Name → Bool
  | .enable _ _ => false
  | .violation _ _ => false
  | .coefficient _ _ _ _ => false
  | _ => true

/-- The name of the literal of an unwinding, the only one with a suffix inside. -/
def isEnable : Name → Bool
  | .enable _ _ => true
  | _ => false

theorem isEnable_of_isLocal {name : Name} (isLocal : name.isLocal = true) :
    name.isEnable = false := by
  cases name with
  | enable head suffix => cases isLocal
  | _ => rfl

/-- No object and no other name is called like the literal of an unwinding. -/
theorem base_ne_enable {name : Name} (other : name.isEnable = false) (proper : name.IsProper) :
    name.base ≠ "$enable" := by
  have noObject : ∀ {object}, IsObjectName object → object ≠ "$enable" := by
    intro object isObject
    have apart : (Name.enable 0 "").base ≠ object := Name.base_ne_object rfl isObject
    exact apart.symm
  cases name with
  | input object => exact noObject (proper object rfl)
  | version object loc => exact noObject (proper object rfl)
  | phi object loc => exact noObject (proper object rfl)
  | loopBack object b => exact noObject (proper object rfl)
  | enable head suffix => cases other
  | _ => simp [base]

theorem not_mem_tag {name : Name} (other : name.isEnable = false) {c : Char}
    (noDigit : c.isDigit = false)
    (noLetter : c ∉ ['i', 'n', 'p', 'h', 'l', 'b', 's', 'c', 'o', 'd', '.']) : c ∉ name.tag := by
  have absent := not_mem_digits noDigit
  cases name <;> simp_all [tag, Name.isEnable]

theorem isPlain {name : Name} (isLocal : name.isLocal = true) : IsPlain name.text := by
  have other := isEnable_of_isLocal isLocal
  exact ⟨_, _, name.toList_text, not_mem_tag other (by decide) (by decide),
    not_mem_tag other (by decide) (by decide)⟩

/-- Whatever the objects are called, the texts of two names tell their tags. -/
theorem tag_eq_of_text_eq {m n : Name} (first : m.isLocal = true) (second : n.isLocal = true)
    (same : m.text = n.text) : m.tag = n.tag := by
  have split : m.base.toList ++ '#' :: m.tag = n.base.toList ++ '#' :: n.tag := by
    rw [← toList_text, ← toList_text, same]
  exact (append_cons_inj_right (not_mem_tag (isEnable_of_isLocal first) (by decide) (by decide))
    (not_mem_tag (isEnable_of_isLocal second) (by decide) (by decide)) split).2

end Name

namespace Symbol

@[simp] theorem sort_unwound (s : Symbol) (suffix : String) : (s.unwound suffix).sort = s.sort := by
  unfold unwound
  split <;> rfl

theorem name_unwound_congr {s t : Symbol} (same : s.name = t.name) (suffix : String) :
    (s.unwound suffix).name = (t.unwound suffix).name := by
  unfold unwound
  split
  · exact same
  · exact congrArg (fun name => name ++ "%" ++ suffix) same

@[simp] theorem unwound_empty (s : Symbol) : s.unwound "" = s := if_pos rfl

/-- What a suffix adds to the text of a name. -/
def mark (suffix : String) : List Char := if suffix = "" then [] else '%' :: suffix.toList

theorem toList_unwound (s : Symbol) (suffix : String) :
    (s.unwound suffix).name.toList = s.name.toList ++ mark suffix := by
  unfold unwound mark
  split <;> simp

theorem not_mem_mark {c : Char} {suffix : String} (other : c ≠ '%') (absent : c ∉ suffix.toList) :
    c ∉ mark suffix := by
  unfold mark
  split
  · exact List.not_mem_nil
  · simp [other, absent]

/-- Behind a text without `%`, the mark tells the suffix. -/
theorem append_mark_inj {xs ys : List Char} {suffix other : String} (first : '%' ∉ xs)
    (second : '%' ∉ ys) (same : xs ++ mark suffix = ys ++ mark other) :
    xs = ys ∧ suffix = other := by
  unfold mark at same
  split at same <;> split at same
  · next empty empty' => exact ⟨by simpa using same, empty.trans empty'.symm⟩
  · exact absurd (by rw [← List.append_nil xs, same]; simp) first
  · exact absurd (by rw [← List.append_nil ys, ← same]; simp) second
  · obtain ⟨fronts, suffixes⟩ := append_cons_inj first second same
    exact ⟨fronts, String.toList_inj.mp suffixes⟩

theorem isPrefix_unwound (s : Symbol) (suffix : String) :
    s.name.toList <+: (s.unwound suffix).name.toList := by
  rw [toList_unwound]
  exact List.prefix_append _ _

/-- A copy tells its symbol and its suffix. -/
theorem unwound_injective {s t : Symbol} {suffix other : String} (plain : IsPlain s.name)
    (plain' : IsPlain t.name) (noMark : '#' ∉ suffix.toList) (noMark' : '#' ∉ other.toList)
    (same : s.unwound suffix = t.unwound other) : s = t ∧ suffix = other := by
  obtain ⟨base, tag, name, noHash, noPercent⟩ := plain
  obtain ⟨base', tag', name', noHash', noPercent'⟩ := plain'
  have split : base ++ '#' :: (tag ++ mark suffix) = base' ++ '#' :: (tag' ++ mark other) := by
    have texts := congrArg (fun s => s.name.toList) same
    simpa [toList_unwound, name, name'] using texts
  -- the last `#` of a copy is the one in front of the tag
  have free : '#' ∉ tag ++ mark suffix := by simp [noHash, not_mem_mark, noMark]
  have free' : '#' ∉ tag' ++ mark other := by simp [noHash', not_mem_mark, noMark']
  obtain ⟨bases, tails⟩ := append_cons_inj_right free free' split
  have tags := append_mark_inj noPercent noPercent' tails
  obtain ⟨rfl, rfl⟩ := tags
  refine ⟨?_, rfl⟩
  have sorts := congrArg Symbol.sort same
  rw [sort_unwound, sort_unwound] at sorts
  have names : s.name = t.name := by
    apply String.toList_inj.mp
    rw [name, name', bases]
  cases s
  cases t
  simp_all

end Symbol

end TemplateAnalysis
