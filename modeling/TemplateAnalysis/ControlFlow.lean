import TemplateAnalysis.Program

/-! # Control flow

An edge that does not go forward is a back edge and closes a loop: its target is the head, and the
extent of a head runs to the last location with a back edge to it. Only procedures whose extents
nest properly and are entered through their heads are accepted.
-/

namespace TemplateAnalysis

namespace Instruction

/-- Where control may go from an instruction at `loc`, in a body whose last location is `last`. -/
def successors (last loc : Nat) : Instruction → List Nat
  | .goto condition target =>
    if condition.isTrue then [target]
    else if condition.isFalse then [loc + 1]
    else if target = loc + 1 then [target]
    else [target, loc + 1]
  | .ret _ => [last]
  | .endFunction => []
  | _ => [loc + 1]

end Instruction

/-- A loop closed by a single back edge. -/
structure Loop where
  head : Nat
  backEdge : Nat
deriving DecidableEq

/-- The location lies between the head and the source of the back edge. -/
def Loop.contains (loop : Loop) (loc : Nat) : Bool :=
  decide (loop.head ≤ loc) && decide (loc ≤ loop.backEdge)

/-- The edges of a body, sorted into forward edges and loops, each in location order. -/
structure Flow where
  size : Nat
  forward : List (Nat × Nat)
  loops : List Loop

namespace Flow

/-- The edges of a body, in location order. -/
def edges (body : List Instruction) : List (Nat × Nat) :=
  body.zipIdx.flatMap fun (instruction, loc) =>
    (instruction.successors (body.length - 1) loc).map fun next => (loc, next)

/-- The control flow of a body. -/
def ofBody (body : List Instruction) : Flow where
  size := body.length
  forward := (edges body).filter fun (loc, next) => decide (loc < next)
  loops := ((edges body).filter fun (loc, next) => decide (next ≤ loc)).map fun (loc, next) =>
    ⟨next, loc⟩

variable (flow : Flow)

/-- The sources of the forward edges into a location. -/
def forwardPreds (loc : Nat) : List Nat :=
  (flow.forward.filter fun edge => edge.2 == loc).map (·.1)

/-- The sources of the back edges into a location. -/
def backEdges (loc : Nat) : List Nat :=
  (flow.loops.filter fun loop => loop.head == loc).map (·.backEdge)

/-- Some back edge goes to the location. -/
def isHead (loc : Nat) : Bool := flow.loops.any fun loop => loop.head == loc

/-- The loop heads, in location order. -/
def heads : List Nat := (List.range flow.size).filter flow.isHead

/-- The last location with a back edge to `head`. -/
def extentEnd (head : Nat) : Nat := (flow.backEdges head).foldl max 0

/-- The last location of the loops with a given head, if it is one. -/
def extent? (head : Nat) : Option Nat :=
  if flow.isHead head then some (flow.extentEnd head) else none

/-- The location lies in the extent of `head`. -/
def inExtent (head loc : Nat) : Bool := decide (head ≤ loc) && decide (loc ≤ flow.extentEnd head)

/-- The loop heads whose extents contain a location, outermost first. -/
def enclosing (loc : Nat) : List Nat := flow.heads.filter fun head => flow.inExtent head loc

/-- The loop nesting depth of a location. -/
def depth (loc : Nat) : Nat := (flow.enclosing loc).length

/-- Two heads whose extents overlap without nesting. -/
def overlap? : Option (Nat × Nat) :=
  flow.heads.findSome? fun outer => flow.heads.findSome? fun inner =>
    if outer < inner ∧ inner ≤ flow.extentEnd outer ∧ flow.extentEnd outer < flow.extentEnd inner
    then some (outer, inner) else none

/-- A forward edge into an extent past its head: the source of the edge, and the head. -/
def sideEntry? : Option (Nat × Nat) :=
  flow.forward.findSome? fun (loc, next) => flow.heads.findSome? fun head =>
    if head < next ∧ next ≤ flow.extentEnd head ∧ ¬ flow.inExtent head loc then some (loc, head)
    else none

end Flow

/-- Why a procedure is not accepted. -/
inductive BuildError where
  | emptyBody
  | missingEnd
  | invalidTarget (loc target : Nat)
  | unsupported (loc : Nat) (instruction : Instruction)
  | overlappingLoop (head outer : Nat)
  | sideEntry (loc : Nat) (instruction : Instruction) (head : Nat)

namespace BuildError

/-- The wording of an error about the named function. -/
def message (function : String) : BuildError → String
  | .emptyBody => "function '" ++ function ++ "' has an empty body"
  | .missingEnd => "function '" ++ function ++ "' does not end with END_FUNCTION"
  | .invalidTarget loc target =>
    "function '" ++ function ++ "': goto at " ++ toString loc ++ " targets " ++ toString target ++
      ", which is out of range"
  | .unsupported loc instruction => refused loc instruction.text
  | .overlappingLoop head outer =>
    refused head ("loop overlapping the loop at " ++ toString outer)
  | .sideEntry loc instruction head =>
    refused loc (instruction.text ++ " (enters the loop at " ++ toString head ++ ")")
where
  refused (loc : Nat) (what : String) : String :=
    "function '" ++ function ++ "': unsupported instruction at " ++ toString loc ++ ": " ++ what

end BuildError

/-- The first instruction that is refused on its own account. -/
def firstRefused (body : List Instruction) : Option BuildError :=
  body.zipIdx.findSome? fun (instruction, loc) =>
    match instruction with
    | .goto _ target => if body.length ≤ target then some (.invalidTarget loc target) else none
    | .other _ => some (.unsupported loc instruction)
    | _ => none

/-- The control flow of a body, if its instructions and its loops are accepted. -/
def Flow.check (body : List Instruction) : Except BuildError Flow :=
  match body.getLast? with
  | none => .error .emptyBody
  | some last =>
    if last ≠ .endFunction then .error .missingEnd
    else
      match firstRefused body with
      | some error => .error error
      | none =>
        let flow := Flow.ofBody body
        match flow.overlap?, flow.sideEntry? with
        | some (outer, inner), _ => .error (.overlappingLoop inner outer)
        | none, some (loc, head) => .error (.sideEntry loc (body.getD loc .skip) head)
        | none, none => .ok flow

end TemplateAnalysis
