import TemplateAnalysis.Expr.Eval
import TemplateAnalysis.Solver.Session

/-! # Solving by enumeration

The enumerative solver looks for a model in which every integer it has to guess lies within a fixed
bound. An equation whose left side is a symbol without a definition so far is taken as its
definition, and the symbol is computed and not guessed. The search guesses only symbols on which
some undecided constraint depends.
-/

namespace TemplateAnalysis

namespace Enumeration

/-- The largest absolute value that is guessed. -/
def bound : Nat := 16

/-- The guesses for a symbol of a sort, in the order in which they are tried: small numbers
first. -/
def guesses : ValueSort → List Value
  | .bool => [.bool false, .bool true]
  | .int => .int 0 :: (List.range bound).flatMap fun k =>
    [.int (Int64.ofNat (k + 1)), .int (-Int64.ofNat (k + 1))]

/-- The guess for a symbol that nothing depends on. -/
def firstGuess : ValueSort → Value
  | .bool => .bool false
  | .int => .int 0

/-- Formulas sorted into definitions and constraints, and the symbols that have no definition. -/
structure Problem where
  definitions : List (Symbol × Expr) := []
  constraints : List Expr := []
  free : List Symbol := []

namespace Problem

/-- The definition a formula is taken as, given the definitions before it. -/
def definition? (definitions : List (Symbol × Expr)) : Expr → Option (Symbol × Expr)
  | .equation (.var s) rhs =>
    if (definitions.lookup s).isSome || rhs.occurrences.contains s then none else some (s, rhs)
  | _ => none

/-- Sort one more formula in. -/
def add (problem : Problem) (formula : Expr) : Problem :=
  match definition? problem.definitions formula with
  | some definition =>
    { problem with definitions := problem.definitions ++ [definition] }
  | none => { problem with constraints := problem.constraints ++ [formula] }

/-- The symbols without a definition, formula by formula, each once. -/
def freeSymbols (definitions : List (Symbol × Expr)) (formulas : List Expr) : List Symbol :=
  (formulas.flatMap Expr.symbols).foldl (fun free s =>
    if (definitions.lookup s).isSome || free.contains s then free else free ++ [s]) []

/-- The problem of finding a model of formulas. -/
def ofFormulas (formulas : List Expr) : Problem :=
  let sorted := formulas.foldl add {}
  { sorted with free := freeSymbols sorted.definitions formulas }

/-- A model, and the symbols that have been computed for it, in order. -/
structure Propagation where
  model : Model
  derived : List Symbol := []

/-- Give one more symbol the value that was computed for it. -/
def Propagation.compute (state : Propagation) (s : Symbol) (value : Value) : Propagation :=
  { model := (s, value) :: state.model, derived := state.derived ++ [s] }

/-- Compute the symbols of the definitions whose right sides are known, one after the other. -/
def pass (definitions : List (Symbol × Expr)) (state : Propagation) : Propagation :=
  definitions.foldl (fun state (s, rhs) =>
    match state.model.valuation s with
    | some _ => state
    | none =>
      match rhs.eval state.model.valuation with
      | some value => state.compute s value
      | none => state) state

/-- At most `n` passes; a pass that computes nothing is the last. -/
def passes (definitions : List (Symbol × Expr)) : Nat → Propagation → Propagation
  | 0, state => state
  | n + 1, state =>
    let next := pass definitions state
    if next.derived.length = state.derived.length then state else passes definitions n next

/-- Compute every symbol whose definition can be computed. Each pass but the last computes one, so
as many passes as there are definitions are enough. -/
def propagate (problem : Problem) (model : Model) : Propagation :=
  passes problem.definitions problem.definitions.length { model }

/-- What a model says about the constraints. -/
inductive Inspection where
  /-- some constraint is false -/
  | conflict
  /-- all constraints are known and none is false -/
  | settled
  /-- none is false, and this is the first that is not known -/
  | undecided (constraint : Expr)

/-- Evaluate the constraints. -/
def inspect (v : Valuation) : List Expr → Inspection
  | [] => .settled
  | constraint :: rest =>
    match constraint.eval v with
    | some (.bool false) => .conflict
    | some _ => inspect v rest
    | none =>
      match inspect v rest with
      | .conflict => .conflict
      | _ => .undecided constraint

mutual

/-- The first symbol without a value and without a definition on which the value of an expression
depends. A symbol with a definition is looked into by `look`, once. The second component lists the
symbols that have been looked at. -/
def dependency (look : Expr → List Symbol → Option Symbol × List Symbol) (problem : Problem)
    (v : Valuation) (e : Expr) (seen : List Symbol) : Option Symbol × List Symbol :=
  if (e.eval v).isSome then (none, seen)
  else
    match e with
    | .var s =>
      if seen.contains s then (none, seen)
      else
        match problem.definitions.lookup s with
        | some rhs => look rhs (s :: seen)
        | none => (some s, s :: seen)
    | .conditional c a b =>
      match (c.eval v).bind Value.toBool? with
      | some true => dependency look problem v a seen
      | some false => dependency look problem v b seen
      | none => dependency look problem v c seen
    | .bool _ => (none, seen)
    | .int _ => (none, seen)
    | .nondet _ => (none, seen)
    | .arith _ a b =>
      match dependency look problem v a seen with
      | (some s, seen) => (some s, seen)
      | (none, seen) => dependency look problem v b seen
    | .minus a => dependency look problem v a seen
    | .equation a b =>
      match dependency look problem v a seen with
      | (some s, seen) => (some s, seen)
      | (none, seen) => dependency look problem v b seen
    | .cmp _ a b =>
      match dependency look problem v a seen with
      | (some s, seen) => (some s, seen)
      | (none, seen) => dependency look problem v b seen
    | .negation a => dependency look problem v a seen
    | .junction _ es => dependencyAny look problem v es seen
    | .implication a b =>
      match dependency look problem v a seen with
      | (some s, seen) => (some s, seen)
      | (none, seen) => dependency look problem v b seen

/-- The first dependency found in a list of expressions. -/
def dependencyAny (look : Expr → List Symbol → Option Symbol × List Symbol) (problem : Problem)
    (v : Valuation) : List Expr → List Symbol → Option Symbol × List Symbol
  | [], seen => (none, seen)
  | e :: es, seen =>
    match dependency look problem v e seen with
    | (some s, seen) => (some s, seen)
    | (none, seen) => dependencyAny look problem v es seen

end

/-- The dependency of an expression through at most `n` definitions inside one another. -/
def dependencyWithin (problem : Problem) (v : Valuation) :
    Nat → Expr → List Symbol → Option Symbol × List Symbol
  | 0 => dependency (fun _ seen => (none, seen)) problem v
  | n + 1 => dependency (dependencyWithin problem v n) problem v

/-- The symbol to guess for an undecided constraint. No definition is opened inside itself, so
definitions are never nested deeper than there are definitions. -/
def branchSymbol (problem : Problem) (v : Valuation) (constraint : Expr) : Option Symbol :=
  (dependencyWithin problem v problem.definitions.length constraint []).1

/-- Guess the symbols that nothing depends on, and compute the rest. -/
def complete (problem : Problem) (model : Model) : Model :=
  (problem.propagate (problem.free.foldl (fun model s =>
    match model.valuation s with
    | some _ => model
    | none => (s, firstGuess s.sort) :: model) model)).model

/-- Try the guesses for a symbol one after the other. A guess with which the search fails is taken
back from the model that the search has left. -/
def tryGuesses (search : Model → Bool × Model) (s : Symbol) : List Value → Model → Bool × Model
  | [], model => (false, model)
  | guess :: rest, model =>
    match search ((s, guess) :: model) with
    | (true, found) => (true, found)
    | (false, left) => tryGuesses search s rest (left.remove s)

/-- Go on from a model in which nothing is left to be computed: it is completed if it makes the
constraints true, and if one of them is undecided, a symbol is guessed. -/
def attempt (problem : Problem) (guess : Symbol → Model → Bool × Model) (model : Model) :
    Bool × Model :=
  match inspect model.valuation problem.constraints with
  | .conflict => (false, model)
  | .settled => (true, problem.complete model)
  | .undecided constraint =>
    match problem.branchSymbol model.valuation constraint with
    | none => (false, model)
    | some s => guess s model

/-- Compute what can be computed and go on from there. If this fails, what was computed is taken
back from the model that is left. -/
def round (problem : Problem) (guess : Symbol → Model → Bool × Model) (model : Model) :
    Bool × Model :=
  let propagated := problem.propagate model
  match problem.attempt guess propagated.model with
  | (true, found) => (true, found)
  | (false, left) => (false, propagated.derived.foldl Model.remove left)

/-- Extend a model until the constraints are true, with at most `n` guesses inside one another.
There is one model, which is changed on the way. -/
def search (problem : Problem) : Nat → Model → Bool × Model
  | 0 => problem.round fun _ model => (false, model)
  | n + 1 => problem.round fun s => tryGuesses (problem.search n) s (guesses s.sort)

/-- The model of a search that was successful. -/
def outcome : Bool × Model → Option Model
  | (true, found) => some found
  | (false, _) => none

/-- A model of the problem within the bound, if there is one. Every guess is for another free symbol,
so there are at most as many inside one another as there are free symbols. -/
def solve (problem : Problem) : Option Model :=
  outcome (problem.search problem.free.length [])

end Problem

end Enumeration

/-- A session of the enumerative solver. -/
structure EnumerativeSession where
  id : SessionId
  formulas : List Expr := []
  /-- for each open scope, outermost first, how many formulas were there before it -/
  scopes : List Nat := []
  model : Model := []
  queries : Nat := 0

namespace EnumerativeSession

mutual

/-- The formulas that a formula is asserted as: a conjunction is taken apart. -/
def parts : Expr → List Expr
  | .junction .and es => partsAll es
  | e => [e]

/-- The parts of a list of formulas. -/
def partsAll : List Expr → List Expr
  | [] => []
  | e :: es => parts e ++ partsAll es

end

variable (session : EnumerativeSession)

/-- Add a formula. -/
def assert (formula : Expr) : EnumerativeSession :=
  { session with formulas := session.formulas ++ parts formula }

/-- Open a scope. -/
def push : EnumerativeSession :=
  { session with scopes := session.scopes ++ [session.formulas.length] }

/-- Close the innermost scope. -/
def pop : Except SolverError Unit × EnumerativeSession :=
  match session.scopes.getLast? with
  | none => (.error .scopeUnderflow, session)
  | some mark =>
    (.ok (), { session with
      formulas := session.formulas.take mark
      scopes := session.scopes.dropLast })

/-- Look for a model. The answer is never undecided. -/
def solve : Except SolverError Verdict × EnumerativeSession :=
  let counted := { session with queries := session.queries + 1 }
  match (Enumeration.Problem.ofFormulas session.formulas).solve with
  | some model => (.ok .sat, { counted with model })
  | none => (.ok .unsat, { counted with model := [] })

end EnumerativeSession

instance : Solver EnumerativeSession where
  id := EnumerativeSession.id
  assert formula session := session.assert formula
  push := EnumerativeSession.push
  pop := EnumerativeSession.pop
  solve := EnumerativeSession.solve
  valuation session := session.model.valuation

end TemplateAnalysis
