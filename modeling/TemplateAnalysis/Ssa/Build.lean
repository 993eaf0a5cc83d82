import TemplateAnalysis.Ssa.Basic

/-! # Building single-assignment form

A node first merges the objects that need it, then says when its location is reached, then records
the effect of its instruction over the versions that reach it. Open values get fresh symbols,
numbered within the location.
-/

namespace TemplateAnalysis

/-- The objects of a procedure, in name order. A name has the sort of its first mention: among the
parameters, the globals of the table, then the instructions. -/
def objectsOf (procedure : Procedure) (table : SymbolTable) : List Symbol :=
  let mentioned := procedure.params ++ table.globals ++ procedure.body.flatMap fun instruction =>
    instruction.reads ++ instruction.writes.toList ++
      match instruction with
      | .dead object => [object]
      | .ret (some value) => [⟨returnValue, value.sort⟩]
      | _ => []
  let sorts : NameMap ValueSort :=
    mentioned.foldl (fun sorts s => NameMap.insertNew s.name s.sort sorts) []
  sorts.map fun (name, sort) => ⟨name, sort⟩

namespace Frame

/-- The frame of a procedure, if it is accepted. -/
def build (function : String) (procedure : Procedure) (table : SymbolTable) :
    Except BuildError Frame :=
  match Flow.check procedure.body with
  | .error error => .error error
  | .ok flow =>
    let objects := objectsOf procedure table
    let globals := objects.filter fun object => table.isStatic object.name
    .ok {
      function, flow, objects, globals
      body := procedure.body
      reaching := Reach.all procedure.body flow objects globals }

variable (frame : Frame)

/-- What an object merged at `loc` may be there: what arrives over the back edges, what it is on
entry, and what arrives over the forward edges. -/
def alternatives (object : Symbol) (loc : Nat) : List (Expr × Expr) :=
  (frame.flow.backEdges loc).map (fun b => (.var (loopSelect b), .var (loopBack object b))) ++
    (if loc = 0 then [(.bool true, .var (Definition.input.version object))] else []) ++
    (frame.flow.forwardPreds loc).filterMap fun pred =>
      (frame.readAfter? object.name pred).map fun version =>
        (frame.edgeGuard pred loc, .var version)

/-- The definitions of the objects merged at a location. -/
def mergeEqualities (loc : Nat) : List Equality :=
  (frame.mergedObjects loc).filterMap fun object =>
    (chooseFirst (frame.alternatives object loc)).map fun value => ⟨phi object loc, value⟩

/-- The definition of the guard of a location. -/
def guardEquality (loc : Nat) : Equality where
  lhs := (Name.guard loc).bool
  rhs :=
    let forward :=
      if loc = 0 then [.bool true]
      else (frame.flow.forwardPreds loc).map fun pred => frame.edgeGuard pred loc
    Expr.disj (forward ++ (frame.flow.backEdges loc).map fun b => .var (loopSelect b))

/-- An expression read at a location: objects become the versions that reach it, and open values
become fresh symbols from the `k`-th on. -/
def read (definitions : Definitions) (loc : Nat) (e : Expr) (k : Nat) : Expr × Nat :=
  (e.substitute fun s => (definitions.version? s.name).map .var).fillNondets
    (fun k sort => .var ((Name.nondet loc k).symbol sort)) k

/-- Reading a list of expressions, one after the other. -/
def readAll (definitions : Definitions) (loc : Nat) : List Expr → Nat → List Expr × Nat
  | [], k => ([], k)
  | e :: es, k =>
    let (e, k) := read definitions loc e k
    let (es, k) := readAll definitions loc es k
    (e :: es, k)

/-- What an instruction adds to its node. -/
structure Effect where
  equalities : List Equality := []
  assertions : List Expr := []
  calls : List Call := []
  /-- how many open values were named -/
  opened : Nat := 0

/-- The effect of an instruction over the definitions that reach it. -/
def effect (definitions : Definitions) (loc : Nat) : Instruction → Effect
  | .decl object =>
    { equalities := [⟨(Name.version object.name loc).symbol object.sort,
        .var ((Name.nondet loc 0).symbol object.sort)⟩]
      opened := 1 }
  | .assign target value =>
    let (value, opened) := read definitions loc value 0
    { equalities := [⟨(Name.version target.name loc).symbol target.sort, value⟩], opened }
  | .goto condition _ => branch condition
  | .assume condition => branch condition
  | .assert condition =>
    let (condition, opened) := read definitions loc condition 0
    { assertions := [condition], opened }
  | .ret (some value) =>
    let sort :=
      match definitions.find? returnValue with
      | some (object, _) => object.sort
      | none => value.sort
    let (value, opened) := read definitions loc value 0
    { equalities := [⟨(Name.version returnValue loc).symbol sort, value⟩], opened }
  | .call result callee arguments =>
    let (arguments, opened) := readAll definitions loc arguments 0
    { calls := [{
        callee, arguments
        result := result.map fun s => (Name.version s.name loc).symbol s.sort
        globalsIn := frame.globals.filterMap fun global => definitions.version? global.name
        globalsOut := frame.globals.map (Definition.assigned loc).version }]
      opened }
  | _ => {}
where
  branch (condition : Expr) : Effect :=
    if condition.isConstant then {}
    else
      let (condition, opened) := read definitions loc condition 0
      { equalities := [⟨(Name.cond loc).bool, condition⟩], opened }

/-- The effect of the instruction at a location. -/
def effectAt (loc : Nat) (instruction : Instruction) : Effect :=
  match frame.reaching[loc]? with
  | some reach => frame.effect reach.before loc instruction
  | none => {}

/-- The node of a location. -/
def nodeAt (loc : Nat) (instruction : Instruction) : Node :=
  let effect := frame.effectAt loc instruction
  { location := loc
    equalities := frame.mergeEqualities loc ++ frame.guardEquality loc :: effect.equalities
    assertions := effect.assertions
    calls := effect.calls
    loopHead := (frame.flow.loops.find? fun loop => loop.backEdge == loc).map (·.head) }

/-- The symbols introduced at a location, by name. -/
def introduced (loc : Nat) (instruction : Instruction) : List String :=
  let node := frame.nodeAt loc instruction
  let opened := List.range (frame.effectAt loc instruction).opened
  node.equalities.map (·.lhs.name) ++
    opened.map (fun k => (Name.nondet loc k).text) ++
    node.calls.flatMap (fun call =>
      (call.result.map (·.name)).toList ++ call.globalsOut.map (·.name)) ++
    (frame.flow.backEdges loc).flatMap fun b =>
      (loopSelect b).name :: (frame.mergedObjects loc).map fun object => (loopBack object b).name

/-- The assertions of a node under its guard. -/
def guardedAssertions (node : Node) : List Expr :=
  node.assertions.map (Expr.implies (.var (Name.guard node.location).bool))

/-- The nodes, with the assertions of later locations noted at the sources of back edges. -/
def noteLaterAssertions : List Node → List Node
  | [] => []
  | node :: rest =>
    { node with
      laterAssertions := if node.loopHead.isSome then rest.flatMap guardedAssertions else [] } ::
      noteLaterAssertions rest

/-- The symbols that nodes read. -/
def readSymbols (nodes : List Node) : List Symbol :=
  nodes.flatMap fun node =>
    node.equalities.flatMap (·.rhs.occurrences) ++ Expr.occurrencesAll node.constraints ++
      Expr.occurrencesAll node.assertions ++
      node.calls.flatMap fun call => Expr.occurrencesAll call.arguments ++ call.globalsIn

/-- The versions of the globals, and of what is returned, at the last location. -/
def outgoing : SymbolSet :=
  let returned := frame.objects.filter fun object => object.name == returnValue
  SymbolSet.ofList ((frame.globals ++ returned).filterMap fun object =>
    frame.readBefore? object.name (frame.body.length - 1))

/-- The single-assignment form on a frame. -/
def complete (params : List Symbol) : Ssa :=
  let located := frame.body.zipIdx
  let nodes := located.map fun (instruction, loc) => frame.nodeAt loc instruction
  let read := SymbolSet.ofList (readSymbols nodes)
  { frame with
    params := params.map Definition.input.version
    globalsIn := SymbolSet.ofList ((frame.globals.map Definition.input.version).filter read.contains)
    globalsOut := frame.outgoing
    definedAt := located.foldl (fun names (instruction, loc) =>
      (frame.introduced loc instruction).foldl (fun names name => NameMap.insert name loc names)
        names) []
    nodes := noteLaterAssertions nodes }

end Frame

namespace Ssa

/-- The single-assignment form of a procedure, if it is accepted. -/
def build (function : String) (procedure : Procedure) (table : SymbolTable) :
    Except BuildError Ssa :=
  match Frame.build function procedure table with
  | .error error => .error error
  | .ok frame => .ok (frame.complete procedure.params)

end Ssa

end TemplateAnalysis
