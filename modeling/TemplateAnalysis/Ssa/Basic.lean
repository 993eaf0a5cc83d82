import TemplateAnalysis.Expr.Replace
import TemplateAnalysis.Ssa.Node
import TemplateAnalysis.Ssa.Reaching

/-! # Single-assignment form

The frame of a procedure is everything that stays fixed: its body, control flow, objects and the
definitions that reach each location. From it come the versions an object has at a location and the
conditions under which control takes an edge. The form itself adds the nodes: first one for each
location, in order, then the copies made by unwinding.

A loop head reads what arrives over its back edges through free loop-back symbols, chosen by free
loop-select literals, so no node reads a symbol that a later location defines.
-/

namespace TemplateAnalysis

/-- The fixed part of the form of a procedure. -/
structure Frame where
  function : String
  body : List Instruction
  flow : Flow
  /-- the objects of the procedure, in name order, one for each name -/
  objects : List Symbol
  /-- the objects that outlive a call, in name order -/
  globals : List Symbol
  reaching : List Reach

/-- The single-assignment form of a procedure. -/
structure Ssa extends Frame where
  params : List Symbol
  globalsIn : SymbolSet
  globalsOut : SymbolSet
  /-- the location at which each symbol is introduced -/
  definedAt : NameMap Nat
  nodes : List Node
  /-- the literals of the unwindings made so far -/
  enabling : List Symbol := []

namespace Frame

variable (frame : Frame)

/-- The symbol that stands for the value of an object before a location. -/
def readBefore? (object : String) (loc : Nat) : Option Symbol :=
  (frame.reaching[loc]?).bind fun reach => reach.before.version? object

/-- The symbol that stands for the value of an object after a location. -/
def readAfter? (object : String) (loc : Nat) : Option Symbol :=
  (frame.reaching[loc]?).bind fun reach => reach.after.version? object

/-- The objects merged at a location. -/
def mergedObjects (loc : Nat) : List Symbol :=
  match frame.reaching[loc]? with
  | some reach => reach.before.mergedAt loc
  | none => []

/-- The name belongs to an object that outlives a call. -/
def isGlobal (object : String) : Bool := frame.globals.any (·.name == object)

/-- The condition of a branch or assumption, as it stands in edge guards: the constant itself, or
the condition symbol of the location. -/
def branchCondition (loc : Nat) : Instruction → Expr
  | .goto condition _ => named condition
  | .assume condition => named condition
  | _ => .bool true
where
  named (condition : Expr) : Expr :=
    if condition.isConstant then condition else .var (Name.cond loc).bool

/-- The condition of the location, if it is one of the body. -/
def condition? (loc : Nat) : Option Expr := (frame.body[loc]?).map (branchCondition loc)

/-- The condition under which control goes from an instruction at `loc` to `next`. -/
def edgeCondition (loc next : Nat) (instruction : Instruction) : Expr :=
  let guard : Expr := .var (Name.guard loc).bool
  match instruction with
  | .goto _ target =>
    let condition := branchCondition loc instruction
    if target = loc + 1 then guard
    else if next = target then guard.and condition
    else guard.and condition.not
  | .assume _ => guard.and (branchCondition loc instruction)
  | _ => guard

/-- The condition under which control goes from one location to another, if the first is one of
the body. -/
def edgeGuard? (loc next : Nat) : Option Expr := (frame.body[loc]?).map (edgeCondition loc next)

/-- The condition under which control goes from a location of the body to another. -/
def edgeGuard (loc next : Nat) : Expr := (frame.edgeGuard? loc next).getD (.bool true)

/-- The guard of the first location. -/
def entryGuard : Symbol := (Name.guard 0).bool

/-- The guard of the last location. -/
def exitGuard : Symbol := (Name.guard (frame.body.length - 1)).bool

end Frame

/-- The literal that chooses a back edge at its loop head. -/
def loopSelect (backEdge : Nat) : Symbol := (Name.loopSelect backEdge).bool

/-- The free symbol for the value of an object that arrives over a back edge. -/
def loopBack (object : Symbol) (backEdge : Nat) : Symbol :=
  (Name.loopBack object.name backEdge).symbol object.sort

/-- The symbol for the value of an object merged at a location. -/
def phi (object : Symbol) (loc : Nat) : Symbol := (Name.phi object.name loc).symbol object.sort

/-- A choice among guarded alternatives, of which the last is taken without testing its guard. -/
def chooseFirst : List (Expr × Expr) → Option Expr
  | [] => none
  | [(_, value)] => some value
  | (guard, value) :: rest => (chooseFirst rest).map (Expr.ite guard value)

namespace Ssa

variable (ssa : Ssa)

/-- The location at which a symbol is introduced; inputs have none. -/
def definedAt? (s : Symbol) : Option Nat := NameMap.find? ssa.definedAt s.name

/-- The loop nesting depth at which a symbol is introduced. -/
def definitionDepth (s : Symbol) : Nat :=
  match ssa.definedAt? s with
  | some loc => ssa.flow.depth loc
  | none => 0

/-- Some node records a call. -/
def hasCalls : Bool := ssa.nodes.any fun node => !node.calls.isEmpty

/-- All formulas. -/
def formulas : List Expr := ssa.nodes.flatMap Node.formulas

/-- The formulas that have not been handed out. -/
def pendingFormulas : List Expr :=
  (ssa.nodes.filter fun node => !node.loaded).flatMap Node.formulas

/-- All nodes count as handed out, or all as not handed out. -/
def setLoaded (loaded : Bool) : Ssa :=
  { ssa with nodes := ssa.nodes.map fun node => { node with loaded } }

/-- The formulas that have not been handed out, and the form in which they have been. -/
def takeFormulas : List Expr × Ssa := (ssa.pendingFormulas, ssa.setLoaded true)

/-- The form with every assertion turned into a constraint under the guard of its node. -/
def constrainAssertions : Ssa := { ssa with nodes := ssa.nodes.map Node.constrained }

/-- The written form, node by node. -/
def text : String := String.join (ssa.nodes.map Node.text)

end Ssa

end TemplateAnalysis
