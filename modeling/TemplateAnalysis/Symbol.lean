/-! # Symbols, values and valuations

Terms have one of two sorts, truth values or 64-bit integers. A symbol is a name with a sort, and
two symbols of one name and different sorts are different symbols. A valuation gives values to
some of the symbols; nothing forces a value to be of its symbol's sort, so agreement with the sorts
is a predicate and not part of the type.
-/

namespace TemplateAnalysis

/-- The sort of a term. -/
inductive ValueSort where
  | bool
  | int
deriving DecidableEq, Hashable

namespace ValueSort

/-- The written form of a sort. -/
def text : ValueSort → String
  | .bool => "bool"
  | .int => "int"

/-- Truth values come before integers. -/
def before : ValueSort → ValueSort → Bool
  | .bool, .int => true
  | _, _ => false

end ValueSort

/-- A sorted identifier: a program object, one of its versions or an auxiliary symbol. -/
structure Symbol where
  name : String
  sort : ValueSort
deriving DecidableEq, Hashable

namespace Symbol

/-- The strict order of symbols: by name, code point by code point, then by sort. -/
def before (s t : Symbol) : Bool :=
  if s.name = t.name then s.sort.before t.sort else decide (s.name < t.name)

end Symbol

/-- A concrete value. Integers wrap around at 64 bits. -/
inductive Value where
  | bool (b : Bool)
  | int (n : Int64)
deriving DecidableEq, Hashable

namespace Value

/-- The truth value, if it is one. -/
def toBool? : Value → Option Bool
  | .bool b => some b
  | .int _ => none

/-- The integer, if it is one. -/
def toInt? : Value → Option Int64
  | .int n => some n
  | .bool _ => none

/-- The sort of a value. -/
def sort : Value → ValueSort
  | .bool _ => .bool
  | .int _ => .int

/-- The written form of a value. -/
def text : Value → String
  | .bool b => if b then "true" else "false"
  | .int n => toString n.toInt

@[simp] theorem toBool?_bool (b : Bool) : (Value.bool b).toBool? = some b := rfl
@[simp] theorem toBool?_int (n : Int64) : (Value.int n).toBool? = none := rfl
@[simp] theorem toInt?_int (n : Int64) : (Value.int n).toInt? = some n := rfl
@[simp] theorem toInt?_bool (b : Bool) : (Value.bool b).toInt? = none := rfl
@[simp] theorem sort_bool (b : Bool) : (Value.bool b).sort = .bool := rfl
@[simp] theorem sort_int (n : Int64) : (Value.int n).sort = .int := rfl

end Value

/-- A partial assignment of values to symbols. -/
abbrev Valuation := Symbol → Option Value

namespace Valuation

/-- The truth value a valuation gives to a symbol, if it gives one. -/
def bool? (v : Valuation) (s : Symbol) : Option Bool := (v s).bind Value.toBool?

/-- The integer a valuation gives to a symbol, if it gives one. -/
def int? (v : Valuation) (s : Symbol) : Option Int64 := (v s).bind Value.toInt?

end Valuation

/-- A finite valuation as a list of bindings, of which the first one for a symbol counts. -/
abbrev Model := List (Symbol × Value)

/-- The valuation a model stands for. -/
def Model.valuation (m : Model) : Valuation := fun s => m.lookup s

/-- The model without a value for a symbol. -/
def Model.remove (m : Model) (s : Symbol) : Model := m.filter fun binding => binding.1 != s

/-- A set of symbols, listed in increasing order without repetition. -/
abbrev SymbolSet := List Symbol

namespace SymbolSet

/-- The set with one more symbol. -/
def insert (s : Symbol) : SymbolSet → SymbolSet
  | [] => [s]
  | t :: rest =>
    if s = t then t :: rest
    else if s.before t then s :: t :: rest
    else t :: insert s rest

/-- The set of the symbols in a list. -/
def ofList (symbols : List Symbol) : SymbolSet := symbols.foldl (fun set s => insert s set) []

/-- Every symbol of the first set is in the second. -/
def subset (s t : SymbolSet) : Bool := s.all (t.contains ·)

theorem mem_insert {s t : Symbol} {set : SymbolSet} : t ∈ insert s set ↔ t = s ∨ t ∈ set := by
  induction set with
  | nil => simp [insert]
  | cons u rest ih =>
    simp only [insert]
    split
    · next same => subst same; simp
    · split
      · simp
      · simp only [List.mem_cons, ih]
        constructor
        · rintro (h | h | h)
          · exact .inr (.inl h)
          · exact .inl h
          · exact .inr (.inr h)
        · rintro (h | h | h)
          · exact .inr (.inl h)
          · exact .inl h
          · exact .inr (.inr h)

theorem mem_foldl_insert {t : Symbol} {symbols : List Symbol} {set : SymbolSet} :
    t ∈ symbols.foldl (fun set s => insert s set) set ↔ t ∈ set ∨ t ∈ symbols := by
  induction symbols generalizing set with
  | nil => simp
  | cons s rest ih =>
    simp only [List.foldl_cons, ih, mem_insert, List.mem_cons]
    constructor
    · rintro ((h | h) | h)
      · exact .inr (.inl h)
      · exact .inl h
      · exact .inr (.inr h)
    · rintro (h | h | h)
      · exact .inl (.inr h)
      · exact .inl (.inl h)
      · exact .inr h

@[simp] theorem mem_ofList {t : Symbol} {symbols : List Symbol} :
    t ∈ ofList symbols ↔ t ∈ symbols := by
  simp [ofList, mem_foldl_insert]

end SymbolSet

end TemplateAnalysis
