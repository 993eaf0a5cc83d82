import TemplateAnalysis.Ssa.Basic
import TemplateAnalysis.Template.Row

/-! # Observed variables

An observation says which symbols stand for an object before and after a transition and under
which guards. A summary observes a function on entry, on exit and at its loops; for a summary
backwards, entry and exit and the two ends of every loop transition trade places. Ranking functions
observe the integer variables that may change on the way around a loop.
-/

namespace TemplateAnalysis

/-- A variable of a template, in the context where it is observed. -/
structure Observation where
  object : Symbol
  /-- the symbol before the transition -/
  var : Symbol
  /-- the symbol after the transition -/
  postVar : Symbol
  preGuard : Expr
  postGuard : Expr
  role : Role
deriving DecidableEq

namespace Observation

/-- Observe symbols at one point, where the state does not change. -/
def still (vars : List Symbol) (preGuard postGuard : Expr) (role : Role) : List Observation :=
  vars.map fun s =>
    { object := ⟨s.object, s.sort⟩, var := s, postVar := s, preGuard, postGuard, role }

/-- The observations of the given roles. -/
def ofRoles (roles : List Role) (observations : List Observation) : List Observation :=
  observations.filter fun o => roles.contains o.role

/-- All symbols, before and after. -/
def symbols (observations : List Observation) : SymbolSet :=
  SymbolSet.ofList (observations.flatMap fun o => [o.var, o.postVar])

end Observation

namespace Frame

variable (frame : Frame)

/-- The guards of the transition around a loop: at the head, entered over the back edge, and at the
back edge. Backwards they trade places. -/
def loopGuards (loop : Loop) (forward : Bool) : Expr × Expr :=
  let arriving := Expr.and (.var (Name.guard loop.head).bool) (.var (loopSelect loop.backEdge))
  let leaving := frame.edgeGuard loop.backEdge loop.head
  if forward then (arriving, leaving) else (leaving, arriving)

/-- The objects merged at the head of a loop: the value that arrived over the back edge, and the
value that is about to. -/
def observeLoop (loop : Loop) (forward : Bool) : List Observation :=
  let (preGuard, postGuard) := frame.loopGuards loop forward
  (frame.mergedObjects loop.head).filterMap fun object =>
    (frame.readAfter? object.name loop.backEdge).map fun leaving =>
      let arriving := loopBack object loop.backEdge
      let (var, postVar) := if forward then (arriving, leaving) else (leaving, arriving)
      { object, var, postVar, preGuard, postGuard, role := .loop }

/-- The variables of every loop, in the order of the back edges. -/
def observeLoops (forward : Bool) : List Observation :=
  frame.flow.loops.flatMap fun loop => frame.observeLoop loop forward

/-- The variables a ranking function for a loop may use: integers whose value at the back edge is
not still the one merged at the head. -/
def rankable (loop : Loop) : List Observation :=
  (frame.observeLoop loop true).filter fun o =>
    o.var.sort == .int && o.postVar != phi o.object loop.head

/-- The variables of all ranking functions. -/
def observeRanking : List Observation := frame.flow.loops.flatMap frame.rankable

/-- One ranking row for each back edge, even one without variables. -/
def rankingRows : List TemplateRow :=
  frame.flow.loops.map fun loop =>
    let (preGuard, postGuard) := frame.loopGuards loop true
    .ranking ((frame.rankable loop).map fun o => (.var o.var, .var o.postVar)) preGuard postGuard

end Frame

namespace Ssa

variable (ssa : Ssa)

/-- The variables of a summary: entry values, exit values and loop variables. -/
def observeSummary (forward : Bool) : List Observation :=
  let entry : Expr := .var Frame.entryGuard
  let exit : Expr := .var ssa.exitGuard
  let (incoming, outgoing) : Role × Role :=
    if forward then (.input, .output) else (.output, .input)
  Observation.still (ssa.params ++ ssa.globalsIn) entry entry incoming ++
    Observation.still ssa.globalsOut exit exit outgoing ++
    ssa.observeLoops forward

end Ssa

namespace Observation

/-- The symbols of the entry and exit values. -/
def interface (observations : List Observation) : SymbolSet :=
  SymbolSet.ofList ((ofRoles [.input, .output] observations).map (·.var))

end Observation

end TemplateAnalysis
