import TemplateAnalysis.Name
import TemplateAnalysis.Proofs.Expr.Sorted

/-! # Auxiliary names are unambiguous

The text of a name is its base, a `#` and a tag. Bases hold no `#`, so the first `#` of the text
separates the two; the base tells objects from auxiliary names, and the tag tells the shapes of one
base apart. Hence two names over proper objects have the same text only if they are the same.
-/

namespace TemplateAnalysis

/-- What a program may call an object: no `#` inside and no `$` in front. -/
def IsIdentifier (name : String) : Prop := '#' ∉ name.toList ∧ name.toList.head? ≠ some '$'

instance (name : String) : Decidable (IsIdentifier name) := inferInstanceAs (Decidable (_ ∧ _))

/-- The name of an object: an identifier, or the one that stands for what is returned. -/
def IsObjectName (name : String) : Prop := IsIdentifier name ∨ name = returnValue

theorem IsObjectName.noMark {name : String} (object : IsObjectName name) : '#' ∉ name.toList := by
  rcases object with identifier | rfl
  · exact identifier.1
  · decide

section Lists

variable {α : Type}

/-- The first separator splits a list in one way only. -/
theorem append_cons_inj {a : α} {xs ys us vs : List α} (first : a ∉ xs) (second : a ∉ us)
    (same : xs ++ a :: ys = us ++ a :: vs) : xs = us ∧ ys = vs := by
  induction xs generalizing us with
  | nil =>
    cases us with
    | nil => exact ⟨rfl, (List.cons.inj same).2⟩
    | cons u us =>
      obtain ⟨rfl, -⟩ := List.cons.inj same
      exact absurd List.mem_cons_self second
  | cons x xs ih =>
    cases us with
    | nil =>
      obtain ⟨rfl, -⟩ := List.cons.inj same
      exact absurd List.mem_cons_self first
    | cons u us =>
      obtain ⟨rfl, rest⟩ := List.cons.inj same
      obtain ⟨rfl, tails⟩ := ih (fun h => first (List.mem_cons_of_mem _ h))
        (fun h => second (List.mem_cons_of_mem _ h)) rest
      exact ⟨rfl, tails⟩

end Lists

/-- The object of a symbol is what stands in front of the first `#`. -/
theorem Symbol.object_eq {s : Symbol} {base : String} {rest : List Char}
    (noMark : '#' ∉ base.toList) (split : s.name.toList = base.toList ++ '#' :: rest) :
    s.object = base := by
  have keep : ∀ c ∈ base.toList, (c != '#') = true := by
    intro c member
    rw [bne_iff_ne]
    rintro rfl
    exact noMark member
  rw [object, split, List.takeWhile_append_of_pos keep]
  simp

/-- The digits of a number. -/
abbrev digits (n : Nat) : List Char := Nat.toDigits 10 n

theorem digits_injective {m n : Nat} (same : digits m = digits n) : m = n := by
  have value := congrArg (fun cs => Nat.ofDigitChars 10 cs 0) same
  simpa using value

theorem not_mem_digits {c : Char} (other : c.isDigit = false) (n : Nat) : c ∉ digits n := by
  intro member
  have digit := Nat.isDigit_of_mem_toDigits (by decide) (by decide) member
  rw [other] at digit
  cases digit

theorem digits_ne_cons {c : Char} (other : c.isDigit = false) (n : Nat) (rest : List Char) :
    digits n ≠ c :: rest := by
  intro same
  have member : c ∈ digits n := by rw [same]; exact List.mem_cons_self
  exact not_mem_digits other n member

/-- Two numbers before a separator. -/
theorem digits_append_inj {c : Char} (other : c.isDigit = false) {m n : Nat} {xs ys : List Char}
    (same : digits m ++ c :: xs = digits n ++ c :: ys) : m = n ∧ xs = ys := by
  obtain ⟨numbers, rest⟩ := append_cons_inj (not_mem_digits other m) (not_mem_digits other n) same
  exact ⟨digits_injective numbers, rest⟩

theorem digits_append_ne {c : Char} (other : c.isDigit = false) (n : Nat) (xs rest : List Char) :
    digits n ++ xs ≠ c :: rest := by
  intro same
  cases numbers : digits n with
  | nil => exact absurd numbers Nat.toDigits_ne_nil
  | cons d ds =>
    rw [numbers] at same
    obtain ⟨rfl, -⟩ := List.cons.inj same
    exact digits_ne_cons other n ds numbers

namespace Name

/-- The part of a name's text before the `#`. -/
def base : Name → String
  | .input object => object
  | .version object _ => object
  | .phi object _ => object
  | .loopBack object _ => object
  | .loopSelect _ => "$guard"
  | .guard _ => "$guard"
  | .cond _ => "$cond"
  | .nondet _ _ => "$nondet"
  | .enable _ _ => "$enable"
  | .violation _ _ => "$tpl"
  | .coefficient _ _ _ _ => "$tpl"

/-- The part of a name's text after the `#`. -/
def tag : Name → List Char
  | .input _ => ['i', 'n']
  | .version _ loc => digits loc
  | .phi _ loc => 'p' :: 'h' :: 'i' :: digits loc
  | .loopBack _ backEdge => 'l' :: 'b' :: digits backEdge
  | .loopSelect backEdge => 'l' :: 's' :: digits backEdge
  | .guard loc => digits loc
  | .cond loc => digits loc
  | .nondet loc k => digits loc ++ '.' :: digits k
  | .enable head suffix => digits head ++ '%' :: suffix.toList
  | .violation domain row => digits domain ++ '.' :: 'c' :: 'o' :: 'n' :: 'd' :: digits row
  | .coefficient domain row component index =>
    digits domain ++ '.' :: 'c' :: (digits row ++ '.' :: (digits component ++ '.' :: digits index))

theorem toList_text (name : Name) : name.text.toList = name.base.toList ++ '#' :: name.tag := by
  cases name <;> simp [text, base, tag]

/-- The object a name speaks of, for the shapes that speak of one. -/
def object? : Name → Option String
  | .input object => some object
  | .version object _ => some object
  | .phi object _ => some object
  | .loopBack object _ => some object
  | _ => none

/-- A name that speaks of proper objects only. -/
def IsProper (name : Name) : Prop := ∀ object ∈ name.object?, IsObjectName object

theorem isProper_of_none {name : Name} (none : name.object? = none) : name.IsProper := by
  simp [IsProper, none]

theorem IsProper.noMark {name : Name} (proper : name.IsProper) : '#' ∉ name.base.toList := by
  cases name with
  | input object => exact (proper object rfl).noMark
  | version object loc => exact (proper object rfl).noMark
  | phi object loc => exact (proper object rfl).noMark
  | loopBack object backEdge => exact (proper object rfl).noMark
  | _ => simp [base]

/-- No object is called like the base of an auxiliary name. -/
theorem base_ne_object {name : Name} (auxiliary : name.object? = none) {object : String}
    (proper : IsObjectName object) : name.base ≠ object := by
  have marked : name.base.toList.head? = some '$' ∧ name.base ≠ returnValue := by
    cases name <;> simp [base, object?, returnValue] at auxiliary ⊢
  rintro rfl
  rcases proper with identifier | returned
  · exact identifier.2 marked.1
  · exact marked.2 returned

/-- The base of a name that speaks of an object is that object. -/
theorem base_of_object? {name : Name} {object : String} (speaks : name.object? = some object) :
    name.base = object := by
  cases name <;> cases speaks <;> rfl

private theorem eq_of_object {m n : Name} {object : String} (first : m.object? = some object)
    (second : n.object? = some object) (tags : m.tag = n.tag) : m = n := by
  have apart : ∀ {k : Nat} {c : Char} {rest : List Char}, c.isDigit = false →
      digits k = c :: rest → False := fun other same => digits_ne_cons other _ _ same
  cases m <;> simp only [object?, Option.some.injEq, reduceCtorEq] at first <;>
    cases n <;> simp only [object?, Option.some.injEq, reduceCtorEq] at second <;>
    subst first second <;> simp only [tag] at tags
  case input.input => rfl
  case input.version => exact (apart (by decide) tags.symm).elim
  case input.phi => simp at tags
  case input.loopBack => simp at tags
  case version.input => exact (apart (by decide) tags).elim
  case version.version => rw [digits_injective tags]
  case version.phi => exact (apart (by decide) tags).elim
  case version.loopBack => exact (apart (by decide) tags).elim
  case phi.input => simp at tags
  case phi.version => exact (apart (by decide) tags.symm).elim
  case phi.phi m _ n =>
    obtain rfl : m = n := digits_injective (by simpa using tags)
    rfl
  case phi.loopBack => simp at tags
  case loopBack.input => simp at tags
  case loopBack.version => exact (apart (by decide) tags.symm).elim
  case loopBack.phi => simp at tags
  case loopBack.loopBack m _ n =>
    obtain rfl : m = n := digits_injective (by simpa using tags)
    rfl

private theorem violation_ne_coefficient {d e r s c i : Nat} :
    (Name.violation d r).tag ≠ (Name.coefficient e s c i).tag := by
  intro tags
  have rest := (digits_append_inj (by decide) tags).2
  simp only [List.cons.injEq, true_and] at rest
  exact digits_append_ne (by decide) s _ _ rest.symm

private theorem eq_of_auxiliary {m n : Name} (first : m.object? = none) (second : n.object? = none)
    (bases : m.base = n.base) (tags : m.tag = n.tag) : m = n := by
  cases m <;> simp only [object?, reduceCtorEq] at first <;>
    cases n <;> simp only [object?, reduceCtorEq] at second <;>
    simp [base] at bases
  case loopSelect.loopSelect m n =>
    obtain rfl : m = n := digits_injective (by simpa [tag] using tags)
    rfl
  case loopSelect.guard => exact (digits_ne_cons (by decide) _ _ tags.symm).elim
  case guard.loopSelect => exact (digits_ne_cons (by decide) _ _ tags).elim
  case guard.guard => rw [digits_injective tags]
  case cond.cond => rw [digits_injective tags]
  case nondet.nondet =>
    obtain ⟨rfl, rest⟩ := digits_append_inj (by decide) tags
    rw [digits_injective rest]
  case enable.enable =>
    obtain ⟨rfl, rest⟩ := digits_append_inj (by decide) tags
    rw [String.toList_inj.mp rest]
  case violation.violation _ m _ n =>
    obtain ⟨rfl, rest⟩ := digits_append_inj (by decide) tags
    obtain rfl : m = n := digits_injective (by simpa using rest)
    rfl
  case violation.coefficient => exact absurd tags violation_ne_coefficient
  case coefficient.violation => exact absurd tags.symm violation_ne_coefficient
  case coefficient.coefficient =>
    obtain ⟨rfl, rest⟩ := digits_append_inj (by decide) tags
    obtain ⟨rfl, inner⟩ := digits_append_inj (by decide) (List.cons.inj rest).2
    obtain ⟨rfl, last⟩ := digits_append_inj (by decide) inner
    rw [digits_injective last]

/-- Names over proper objects with the same text are the same. -/
theorem text_injective {m n : Name} (first : m.IsProper) (second : n.IsProper)
    (same : m.text = n.text) : m = n := by
  have split : m.base.toList ++ '#' :: m.tag = n.base.toList ++ '#' :: n.tag := by
    rw [← toList_text, ← toList_text, same]
  obtain ⟨bases, tags⟩ := append_cons_inj first.noMark second.noMark split
  have bases : m.base = n.base := String.toList_inj.mp bases
  cases speaksM : m.object? with
  | none =>
    cases speaksN : n.object? with
    | none => exact eq_of_auxiliary speaksM speaksN bases tags
    | some object =>
      rw [base_of_object? speaksN] at bases
      exact absurd bases (base_ne_object speaksM (second object (by simp [speaksN])))
  | some object =>
    cases speaksN : n.object? with
    | none =>
      rw [base_of_object? speaksM] at bases
      exact absurd bases.symm (base_ne_object speaksN (first object (by simp [speaksM])))
    | some other =>
      rw [base_of_object? speaksM, base_of_object? speaksN] at bases
      subst bases
      exact eq_of_object speaksM speaksN tags

/-- Names over proper objects are told apart by their symbols, whatever the sorts. -/
theorem eq_of_symbol_eq {m n : Name} {s t : ValueSort} (first : m.IsProper) (second : n.IsProper)
    (same : m.symbol s = n.symbol t) : m = n ∧ s = t :=
  ⟨text_injective first second (congrArg Symbol.name same), congrArg Symbol.sort same⟩

/-- The object of a symbol is the base of its name. -/
theorem object_symbol {name : Name} (proper : name.IsProper) (sort : ValueSort) :
    (name.symbol sort).object = name.base :=
  Symbol.object_eq proper.noMark name.toList_text

end Name

namespace Assignment

open Classical in
/-- The assignment that gives each proper name the value of a function, if it is of the sort. -/
noncomputable def ofNames (f : Name → ValueSort → Value) : Assignment where
  value s :=
    if known : ∃ name : Name, name.IsProper ∧ s = name.symbol s.sort ∧ (f name s.sort).sort = s.sort
    then f known.choose s.sort else s.sort.default
  sorted s := by
    split
    · next known => exact known.choose_spec.2.2
    · exact s.sort.sort_default

theorem ofNames_symbol {f : Name → ValueSort → Value} {name : Name} {sort : ValueSort}
    (isProper : name.IsProper) (sorted : (f name sort).sort = sort) :
    ofNames f (name.symbol sort) = f name sort := by
  classical
  have known : ∃ other : Name, other.IsProper ∧ name.symbol sort = other.symbol sort ∧
      (f other sort).sort = sort := ⟨name, isProper, rfl, sorted⟩
  have same : known.choose = name :=
    (Name.eq_of_symbol_eq isProper known.choose_spec.1 known.choose_spec.2.1).1.symm
  have chosen : ofNames f (name.symbol sort) = f known.choose sort := dif_pos known
  rw [chosen, same]

end Assignment

end TemplateAnalysis
