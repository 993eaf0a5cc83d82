import TemplateAnalysis.ControlFlow

/-! # Reaching definitions

For every location and object: where the value that the object has there comes from. Locations are
visited in order, so what reaches the sources of forward edges is known when a location is visited.
An object that is assigned anywhere in the extent of a loop head is merged at the head; elsewhere
an object is merged where different definitions arrive.
-/

namespace TemplateAnalysis

/-- Where a value comes from. -/
inductive Definition where
  /-- the value on entry -/
  | input
  /-- the value given at a location -/
  | assigned (loc : Nat)
  /-- the value joined at a location -/
  | merged (loc : Nat)
deriving DecidableEq

/-- The symbol that stands for the value of an object. -/
def Definition.version (object : Symbol) : Definition → Symbol
  | .input => (Name.input object.name).symbol object.sort
  | .assigned loc => (Name.version object.name loc).symbol object.sort
  | .merged loc => (Name.phi object.name loc).symbol object.sort

/-- The definitions of all objects at one point, in the order of the objects. -/
abbrev Definitions := List (Symbol × Definition)

namespace Definitions

/-- The object of a name, with its definition. -/
def find? (definitions : Definitions) (name : String) : Option (Symbol × Definition) :=
  List.find? (fun entry => entry.1.name == name) definitions

/-- The symbol that stands for the value of the object of a name. -/
def version? (definitions : Definitions) (name : String) : Option Symbol :=
  (definitions.find? name).map fun (object, definition) => definition.version object

/-- All objects at their values on entry. -/
def inputs (objects : List Symbol) : Definitions := objects.map fun object => (object, .input)

/-- The definitions after some names are given values at a location. -/
def assign (names : List String) (loc : Nat) (definitions : Definitions) : Definitions :=
  definitions.map fun (object, definition) =>
    (object, if names.contains object.name then .assigned loc else definition)

/-- The objects merged at a location. -/
def mergedAt (definitions : Definitions) (loc : Nat) : List Symbol :=
  definitions.filterMap fun (object, definition) =>
    if definition = .merged loc then some object else none

end Definitions

namespace Instruction

/-- The names of the objects that get a new value. A call may change every global. -/
def assigns (globals : List Symbol) : Instruction → List String
  | .decl object => [object.name]
  | .assign target _ => [target.name]
  | .ret (some _) => [returnValue]
  | .call result _ _ => (result.map (·.name)).toList ++ globals.map (·.name)
  | _ => []

end Instruction

/-- What reaches a location, and what leaves it. -/
structure Reach where
  before : Definitions
  after : Definitions

namespace Reach

variable (body : List Instruction) (flow : Flow) (objects globals : List Symbol)

/-- The names assigned somewhere in the extent of a loop head. -/
def loopAssigns (head : Nat) : List String :=
  ((body.drop head).take (flow.extentEnd head + 1 - head)).flatMap (·.assigns globals)

/-- The definition of an object where several arrive, of which `looped` says that one arrives over a
back edge. -/
def mergeOne (loc : Nat) (looped : Bool) : List Definition → Definition
  | [] => if looped then .merged loc else .input
  | first :: rest => if !looped && rest.all (· == first) then first else .merged loc

/-- The definitions of the incoming forward edges that an object has. -/
def arriving (incoming : List Definitions) (object : Symbol) : List Definition :=
  incoming.filterMap fun definitions => (definitions.find? object.name).map (·.2)

/-- The definitions that reach a location, given those of the earlier locations. -/
def merge (earlier : List Reach) (loc : Nat) : Definitions :=
  let incoming :=
    if loc = 0 then [Definitions.inputs objects]
    else (flow.forwardPreds loc).filterMap fun pred => earlier[pred]?.map (·.after)
  let joined :=
    let looped := if flow.isHead loc then loopAssigns body flow globals loc else []
    objects.map fun object =>
      (object, mergeOne loc (looped.contains object.name) (arriving incoming object))
  match incoming with
  | [only] => if flow.isHead loc then joined else only
  | _ => joined

/-- The definitions before and after the instruction at a location. -/
def through (earlier : List Reach) (loc : Nat) (instruction : Instruction) : Reach :=
  let before := merge body flow objects globals earlier loc
  ⟨before, before.assign (instruction.assigns globals) loc⟩

/-- The definitions before and after every location. -/
def all : List Reach :=
  body.zipIdx.foldl (fun earlier (instruction, loc) =>
    earlier ++ [through body flow objects globals earlier loc instruction]) []

end Reach

end TemplateAnalysis
