import TemplateAnalysis.Program
import TemplateAnalysis.Proofs.Expr.Reading
import TemplateAnalysis.Proofs.Names

/-! # Executions

A store gives every object a value. One step performs the instruction at the current location; what
the program leaves open, the values of `nondet` leaves, of declared objects and of everything a call
writes, is chosen anew for each step. An execution starts at the first location and may take any
number of steps.
-/

namespace TemplateAnalysis

/-- The values that one step leaves open. -/
structure Choices where
  /-- the value of the `k`-th open place of a sort -/
  opened : Nat → ValueSort → Value
  opened_sort : ∀ k sort, (opened k sort).sort = sort
  /-- what a call writes to the objects it changes -/
  written : Assignment

instance : Inhabited Choices := ⟨⟨fun _ sort => sort.default, fun _ sort => sort.sort_default,
  default⟩⟩

/-- The value of an expression in a store, with its open places filled in order. -/
def Expr.valueIn (store : Assignment) (c : Choices) (e : Expr) : Option Value :=
  (e.fillNondets (fun k sort => (c.opened k sort).constant) 0).1.eval store.valuation

/-- The store in which an object has a value, if there is one. -/
def Assignment.update (store : Assignment) (object : Symbol) : Option Value → Assignment
  | some x => store.set object x
  | none => store

namespace Instruction

/-- The store after an instruction. -/
def after (table : SymbolTable) (c : Choices) (store : Assignment) : Instruction → Assignment
  | .decl object => store.set object (c.opened 0 object.sort)
  | .assign target value => store.update target (value.valueIn store c)
  | .ret (some value) => store.update ⟨returnValue, value.sort⟩ (value.valueIn store c)
  | .call result _ _ =>
    store.override (fun s => decide (result = some s) || table.isStatic s.name) c.written
  | _ => store

/-- Where control goes from an instruction at `loc`, in a body whose last location is `last`.
Nothing follows a false assumption or the end of the body. -/
def next? (last loc : Nat) (c : Choices) (store : Assignment) : Instruction → Option Nat
  | .goto condition target =>
    match condition.valueIn store c with
    | some (.bool true) => some target
    | some (.bool false) => some (loc + 1)
    | _ => none
  | .assume condition =>
    if condition.valueIn store c = some (.bool true) then some (loc + 1) else none
  | .ret _ => some last
  | .endFunction => none
  | .other _ => none
  | _ => some (loc + 1)

/-- What an instruction asserts. -/
def asserted : Instruction → List Expr
  | .assert condition => [condition]
  | _ => []

end Instruction

/-- A location and the values of the objects there. -/
structure Configuration where
  loc : Nat
  store : Assignment

/-- One step of an execution. -/
inductive Step (body : List Instruction) (table : SymbolTable) (c : Choices)
    (source : Configuration) : Configuration → Prop
  | perform {instruction : Instruction} {next : Nat}
      (here : body[source.loc]? = some instruction)
      (goes : instruction.next? (body.length - 1) source.loc c source.store = some next) :
      Step body table c source ⟨next, instruction.after table c source.store⟩

theorem Step.of_after {body : List Instruction} {table : SymbolTable} {c : Choices}
    {source target : Configuration} {instruction : Instruction}
    (here : body[source.loc]? = some instruction)
    (goes : instruction.next? (body.length - 1) source.loc c source.store = some target.loc)
    (stored : instruction.after table c source.store = target.store) :
    Step body table c source target := by
  obtain ⟨next, store⟩ := target
  subst stored
  exact .perform here goes

/-- An execution from a store arrives at a configuration, with choices that are permitted at the
locations where they are made. -/
inductive Reaches (body : List Instruction) (table : SymbolTable)
    (permitted : Nat → Choices → Prop) (start : Assignment) : Configuration → Prop
  | entry : Reaches body table permitted start ⟨0, start⟩
  | step {source target : Configuration} {c : Choices}
      (run : Reaches body table permitted start source) (allowed : permitted source.loc c)
      (taken : Step body table c source target) : Reaches body table permitted start target

/-- An execution that never ends. -/
structure Endless (body : List Instruction) (table : SymbolTable) (run : Nat → Configuration) :
    Prop where
  starts : (run 0).loc = 0
  steps : ∀ n, ∃ c, Step body table c (run n) (run (n + 1))

/-- Every choice is permitted. -/
def anyChoices : Nat → Choices → Prop := fun _ _ => True

namespace Instruction

/-- Expressions are well sorted and have the sort their place asks for. -/
def isWellSorted : Instruction → Bool
  | .assign target value => value.isWellSorted && value.sort == target.sort
  | .assume condition => condition.isCondition
  | .assert condition => condition.isCondition
  | .goto condition _ => condition.isCondition
  | .call _ _ arguments => arguments.all Expr.isWellSorted
  | .ret (some value) => value.isWellSorted
  | _ => true

/-- The object that holds what an instruction returns. -/
def returned : Instruction → List Symbol
  | .ret (some value) => [⟨returnValue, value.sort⟩]
  | _ => []

/-- The program's own symbols in an instruction. -/
def mentioned : Instruction → List Symbol
  | .dead object => [object]
  | instruction => instruction.reads ++ instruction.writes.toList

end Instruction

/-- The symbols of a procedure and of the globals around it. -/
def Procedure.mentioned (procedure : Procedure) (table : SymbolTable) : List Symbol :=
  procedure.params ++ table.globals ++ procedure.body.flatMap Instruction.mentioned

/-- Identifiers are proper, each is used at one sort, so is the return value, and expressions are
well sorted. -/
structure Procedure.WellFormed (procedure : Procedure) (table : SymbolTable) : Prop where
  identifiers : ∀ s ∈ procedure.mentioned table, IsIdentifier s.name
  oneSort : ∀ s ∈ procedure.mentioned table ++ procedure.body.flatMap Instruction.returned,
    ∀ t ∈ procedure.mentioned table ++ procedure.body.flatMap Instruction.returned,
      s.name = t.name → s = t
  wellSorted : ∀ instruction ∈ procedure.body, instruction.isWellSorted = true

end TemplateAnalysis
