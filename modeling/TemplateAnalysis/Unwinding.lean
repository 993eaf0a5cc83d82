import TemplateAnalysis.Odometer
import TemplateAnalysis.Ssa.Basic

/-! # Loop unwinding

One unwinding appends a copy of the nodes in the extent of a loop head. The copy of the head is
entered through the back edges only, and what arrives over them are the values that leave the
previous copy. All formulas of a copy stand under a literal of its own, so that the copy can be
switched on and off.

A symbol is copied under the counters of the loops around the location that introduces it. Where
that location lies outside the unwound extent, the innermost counter does not apply.
-/

namespace TemplateAnalysis

/-- Why a loop cannot be unwound. -/
inductive UnwindError where
  | notALoopHead (loc : Nat)
  | counter (error : OdometerError)
deriving DecidableEq

/-- The wording of an error about the named function, for those that have one. -/
def UnwindError.message? (function : String) : UnwindError → Option String
  | .notALoopHead loc =>
    some ("function '" ++ function ++ "': location " ++ toString loc ++ " is not a loop head")
  | .counter error => error.message?

/-- The copy of symbols and nodes that one unwinding of a loop makes. -/
structure Copying where
  ssa : Ssa
  head : Nat
  levels : List Nat

namespace Copying

variable (copying : Copying)

/-- The copy of a symbol. Symbols that no location introduces are shared by all copies. -/
def symbol (s : Symbol) : Symbol :=
  match copying.ssa.definedAt? s with
  | none => s
  | some loc =>
    let depth := copying.ssa.flow.depth loc
    let levels :=
      if copying.ssa.flow.inExtent copying.head loc then copying.levels
      else copying.levels.take (min (copying.levels.length - 1) depth)
    s.unwound (Odometer.suffixOf levels depth)

/-- The copy of an expression. -/
def expr (e : Expr) : Expr := e.rename fun s => some (copying.symbol s)

/-- The copy of a definition. -/
def equality (e : Equality) : Equality := ⟨copying.symbol e.lhs, copying.expr e.rhs⟩

/-- The copy of a call. -/
def call (c : Call) : Call where
  callee := c.callee
  arguments := c.arguments.map copying.expr
  result := c.result.map copying.symbol
  globalsIn := c.globalsIn.map copying.symbol
  globalsOut := c.globalsOut.map copying.symbol

/-- The definitions that connect the copy of the head with the previous copy: for each back edge
whether it was taken and what arrives over it, then the guard and the merged objects. -/
def headEqualities (previous : Copying) : List Equality :=
  let ssa := copying.ssa
  let head := copying.head
  let backEdges := ssa.flow.backEdges head
  let merged := ssa.mergedObjects head
  let selected (b : Nat) : Symbol := copying.symbol (loopSelect b)
  let arriving := backEdges.flatMap fun b =>
    ⟨selected b, previous.expr (ssa.edgeGuard b head)⟩ ::
      merged.filterMap fun object =>
        (ssa.readAfter? object.name b).map fun version =>
          ⟨copying.symbol (loopBack object b), .var (previous.symbol version)⟩
  let guard : Equality :=
    ⟨copying.symbol (Name.guard head).bool, Expr.disj (backEdges.map fun b => .var (selected b))⟩
  let merges := merged.filterMap fun object =>
    (chooseFirst (backEdges.map fun b =>
      (.var (selected b), .var (copying.symbol (loopBack object b))))).map fun value =>
        ⟨copying.symbol (phi object head), value⟩
  arriving ++ guard :: merges

/-- The symbols of the head that its copy defines anew. -/
def rebuilt : List Symbol :=
  (Name.guard copying.head).bool ::
    (copying.ssa.mergedObjects copying.head).map fun object => phi object copying.head

/-- The copy of a node. The node at position `head` is to stand at position `first`. -/
def node (previous : Copying) (enable : Symbol) (first : Nat) (base : Node) : Node where
  location := base.location
  equalities :=
    if base.location = copying.head then
      copying.headEqualities previous ++
        (base.equalities.filter fun e => !copying.rebuilt.contains e.lhs).map copying.equality
    else base.equalities.map copying.equality
  constraints := base.constraints.map copying.expr
  assertions := base.assertions.map copying.expr
  calls := base.calls.map copying.call
  enabling := .var enable
  loaded := false
  loopHead := base.loopHead.map fun position =>
    if copying.ssa.flow.inExtent copying.head position then first + (position - copying.head)
    else position
  laterAssertions := base.laterAssertions.map copying.expr
  suffix := Odometer.suffixOf copying.levels copying.levels.length

end Copying

/-- A series of unwindings of one form. -/
structure Unwinder where
  /-- the loops entered, outermost first, each with its counter -/
  entered : List (Nat × Nat) := []
  /-- how often a head was unwound under given outer counters; the first entry counts -/
  counts : List ((Nat × List Nat) × Nat) := []

namespace Unwinder

/-- The counters of the last unwinding. -/
def odometer (u : Unwinder) : Odometer := ⟨u.entered.map (·.2)⟩

/-- The loops that stay entered when the chain of heads is the given one. -/
def shared : List (Nat × Nat) → List Nat → List (Nat × Nat)
  | (head, level) :: entered, next :: chain =>
    if head = next then (head, level) :: shared entered chain else []
  | _, _ => []

/-- Enter one more loop, with the counter it had when it was last entered from here. -/
def enterLoop (counts : List ((Nat × List Nat) × Nat)) (entered : List (Nat × Nat)) (head : Nat) :
    List (Nat × Nat) :=
  entered ++ [(head, (counts.lookup (head, entered.map (·.2))).getD 0)]

/-- Leave and enter loops until exactly those around `head` are entered, `head` included. -/
def enter (u : Unwinder) (flow : Flow) (head : Nat) : Unwinder :=
  let chain := flow.enclosing head
  let kept := shared u.entered chain
  { u with entered := (chain.drop kept.length).foldl (enterLoop u.counts) kept }

/-- Append the next unwinding of the loop at `head`. The result is the literal of the unwinding, the
series after it, and the form with the copy. -/
def unwind (u : Unwinder) (ssa : Ssa) (head : Nat) :
    Except UnwindError (Symbol × Unwinder × Ssa) :=
  match ssa.flow.extent? head with
  | none => .error (.notALoopHead head)
  | some last =>
    let u := u.enter ssa.flow head
    match u.odometer.increment with
    | .error error => .error (.counter error)
    | .ok odometer =>
      let levels := odometer.levels
      let copying : Copying := ⟨ssa, head, levels⟩
      let previous : Copying := ⟨ssa, head, odometer.decrement.levels⟩
      let enable := (Name.enable head (Odometer.suffixOf levels levels.length)).bool
      let copies := ((ssa.nodes.drop head).take (last + 1 - head)).map
        (copying.node previous enable ssa.nodes.length)
      .ok (enable,
        { entered := (u.entered.map (·.1)).zip levels
          counts := ((head, levels.dropLast), levels.getLastD 0) :: u.counts },
        { ssa with nodes := ssa.nodes ++ copies, enabling := ssa.enabling ++ [enable] })

end Unwinder

end TemplateAnalysis
