/-! # Maps keyed by name

A finite map from names to data, listed in increasing order of the names. The order is visible: it
is the order in which objects, globals and functions are enumerated everywhere else.
-/

namespace TemplateAnalysis

/-- A finite map from names, in name order. -/
abbrev NameMap (α : Type) := List (String × α)

namespace NameMap

variable {α β : Type}

/-- The entry of a name. -/
def find? (m : NameMap α) (name : String) : Option α := m.lookup name

/-- The map has an entry for the name. -/
def contains (m : NameMap α) (name : String) : Bool := (m.find? name).isSome

/-- The map with the entry of one name set, in its place in the order. -/
def insert (name : String) (a : α) : NameMap α → NameMap α
  | [] => [(name, a)]
  | (key, b) :: rest =>
    if name = key then (name, a) :: rest
    else if name < key then (name, a) :: (key, b) :: rest
    else (key, b) :: insert name a rest

/-- The map with an entry for a name it does not hold yet; an entry it holds stays. -/
def insertNew (name : String) (a : α) (m : NameMap α) : NameMap α :=
  if m.contains name then m else m.insert name a

/-- The names, in order. -/
def names (m : NameMap α) : List String := m.map (·.1)

@[simp] theorem find?_nil (key : String) : NameMap.find? ([] : NameMap α) key = none := rfl

theorem find?_cons (k : String) (a : α) (rest : NameMap α) (key : String) :
    NameMap.find? ((k, a) :: rest) key = if key = k then some a else rest.find? key := by
  by_cases same : key = k
  · subst same
    simp [find?]
  · have different : (key == k) = false := beq_false_of_ne same
    simp [find?, List.lookup_cons, different, same]

/-- Setting one name changes that name's entry and no other. -/
theorem find?_insert (m : NameMap α) (name key : String) (a : α) :
    (m.insert name a).find? key = if key = name then some a else m.find? key := by
  induction m with
  | nil => simp [insert, find?_cons]
  | cons entry rest ih =>
    obtain ⟨k, b⟩ := entry
    by_cases here : name = k
    · subst here
      by_cases same : key = name <;> simp [insert, find?_cons, same]
    · by_cases earlier : name < k
      · simp [insert, here, earlier, find?_cons]
      · simp only [insert, here, earlier, if_false, find?_cons, ih]
        by_cases same : key = k
        · simp [same, Ne.symm here]
        · simp [same]

end NameMap

end TemplateAnalysis
