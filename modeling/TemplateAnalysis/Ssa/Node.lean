import TemplateAnalysis.Expr.Simplify
import TemplateAnalysis.Program

/-! # Nodes

A node is what single-assignment form records about one location, or about one copy of a location in
an unwound loop: the symbols it defines, the facts it requires, what is asserted there and the calls
made there.
-/

namespace TemplateAnalysis

/-- The definition of a symbol. -/
structure Equality where
  lhs : Symbol
  rhs : Expr
deriving DecidableEq

namespace Equality

/-- The definition as a formula. -/
def formula (e : Equality) : Expr := Expr.equal (.var e.lhs) e.rhs

/-- The written form of a definition. -/
def text (e : Equality) : String := e.lhs.name ++ " == " ++ e.rhs.text

end Equality

/-- A call, with the versions of the globals before and after it. -/
structure Call where
  callee : String
  arguments : List Expr
  result : Option Symbol
  globalsIn : List Symbol
  globalsOut : List Symbol
deriving DecidableEq

/-- The written form of a call. -/
def Call.text (call : Call) : String :=
  Instruction.callText call.result call.callee call.arguments

/-- What is recorded about a location or a copy of one. -/
structure Node where
  location : Nat
  equalities : List Equality := []
  constraints : List Expr := []
  assertions : List Expr := []
  calls : List Call := []
  /-- the formulas of the node hold only under this condition -/
  enabling : Expr := .bool true
  /-- the formulas have been handed out -/
  loaded : Bool := false
  /-- on the source of a back edge, the position of the loop head's node -/
  loopHead : Option Nat := none
  /-- on the source of a back edge, the assertions of later locations -/
  laterAssertions : List Expr := []
  /-- the unwinding a copy belongs to; empty on the node of a location -/
  suffix : String := ""
deriving DecidableEq

namespace Node

/-- Nothing is recorded; assertions of later locations do not count. -/
def isEmpty (node : Node) : Bool :=
  node.equalities.isEmpty && node.constraints.isEmpty && node.assertions.isEmpty &&
    node.calls.isEmpty

/-- The guard of the node's location, or of the copy. -/
def guard (node : Node) : Symbol := (Name.guard node.location).bool.unwound node.suffix

/-- The definitions and constraints, under the enabling condition. -/
def formulas (node : Node) : List Expr :=
  (node.equalities.map Equality.formula ++ node.constraints).map node.enabling.implies

/-- The assertions turned into constraints under the guard of the node. -/
def constrained (node : Node) : Node :=
  { node with
    constraints := node.constraints ++ node.assertions.map (Expr.implies (.var node.guard))
    assertions := [] }

/-- The name of the node at a position. -/
def label (position : Nat) : String := "n" ++ toString position

/-- The written form of a node. -/
def text (node : Node) : String :=
  "*** " ++ toString node.location ++
    (match node.loopHead with
      | some head => " (loop back to " ++ label head ++ ")"
      | none => "") ++
    (if node.enabling.isTrue then "" else " [enabled by " ++ node.enabling.text ++ "]") ++ "\n" ++
    lines "(E) " (node.equalities.map Equality.text) ++
    lines "(C) " (Expr.texts node.constraints) ++
    lines "(A) " (Expr.texts node.assertions) ++
    lines "(F) " (node.calls.map Call.text) ++
    lines "(A after loop) " (Expr.texts node.laterAssertions)
where
  lines (mark : String) (entries : List String) : String :=
    String.join (entries.map fun entry => mark ++ entry ++ "\n")

end Node

end TemplateAnalysis
