import TemplateAnalysis.Expr.Text
import TemplateAnalysis.Name
import TemplateAnalysis.NameMap

/-! # Programs

A procedure is a list of instructions, and a location is a position in that list. Control flow is
written with jumps; a jump that does not go forward closes a loop at its target. The symbol table
says which objects outlive a call.
-/

namespace TemplateAnalysis

/-- One instruction. -/
inductive Instruction where
  | skip
  /-- the object gets an unknown value -/
  | decl (object : Symbol)
  /-- the object goes out of scope -/
  | dead (object : Symbol)
  | assign (target : Symbol) (value : Expr)
  /-- executions in which the condition is false are not considered -/
  | assume (condition : Expr)
  | assert (condition : Expr)
  /-- jump if the condition holds, else go on -/
  | goto (condition : Expr) (target : Nat)
  | call (result : Option Symbol) (callee : String) (arguments : List Expr)
  /-- leave through the last location -/
  | ret (value : Option Expr)
  | endFunction
  /-- something that cannot be analysed -/
  | other (what : String)
deriving DecidableEq

namespace Instruction

/-- The occurrences of symbols that are read, from left to right. -/
def reads : Instruction → List Symbol
  | .assign _ value => value.occurrences
  | .assume condition => condition.occurrences
  | .assert condition => condition.occurrences
  | .goto condition _ => condition.occurrences
  | .call _ _ arguments => Expr.occurrencesAll arguments
  | .ret (some value) => value.occurrences
  | _ => []

/-- The symbol that is written. -/
def writes : Instruction → Option Symbol
  | .decl object => some object
  | .assign target _ => some target
  | .call result _ _ => result
  | _ => none

/-- The written form of a call. -/
def callText (result : Option Symbol) (callee : String) (arguments : List Expr) : String :=
  (match result with
    | some s => s.name ++ " = "
    | none => "") ++
    callee ++ "(" ++ ", ".intercalate (Expr.texts arguments) ++ ")"

/-- The written form of an instruction. -/
def text : Instruction → String
  | .skip => "SKIP"
  | .decl object => "DECL " ++ object.name
  | .dead object => "DEAD " ++ object.name
  | .assign target value => target.name ++ " = " ++ value.text
  | .assume condition => "ASSUME " ++ condition.text
  | .assert condition => "ASSERT " ++ condition.text
  | .goto condition target =>
    if condition.isTrue then "GOTO " ++ toString target
    else "IF " ++ condition.text ++ " GOTO " ++ toString target
  | .call result callee arguments => callText result callee arguments
  | .ret (some value) => "RETURN " ++ value.text
  | .ret none => "RETURN"
  | .endFunction => "END_FUNCTION"
  | .other what => "OTHER " ++ what

end Instruction

/-- A procedure: its parameters and its instructions. -/
structure Procedure where
  params : List Symbol
  body : List Instruction

namespace Procedure

/-- The number of a location, right-aligned in four columns. -/
def column (loc : Nat) : String :=
  let digits := toString loc
  String.ofList (List.replicate (4 - digits.length) ' ') ++ digits

/-- The listing of a procedure, one location a line. -/
def text (procedure : Procedure) : String :=
  String.join (procedure.body.zipIdx.map fun (instruction, loc) =>
    column loc ++ ": " ++ instruction.text ++ "\n")

end Procedure

/-- What is known about an identifier. -/
structure SymbolInfo where
  sort : ValueSort
  /-- globals and statics outlive a call -/
  isStatic : Bool
deriving DecidableEq

/-- The identifiers known to a program. -/
abbrev SymbolTable := NameMap SymbolInfo

namespace SymbolTable

/-- The table with one more identifier; an earlier entry of the name is replaced. -/
def declare (table : SymbolTable) (object : Symbol) (isStatic : Bool) : SymbolTable :=
  NameMap.insert object.name ⟨object.sort, isStatic⟩ table

/-- Unknown names have no static lifetime. -/
def isStatic (table : SymbolTable) (name : String) : Bool :=
  match NameMap.find? table name with
  | some info => info.isStatic
  | none => false

/-- The identifiers with static lifetime, in name order. -/
def globals (table : SymbolTable) : List Symbol :=
  table.filterMap fun (name, info) => if info.isStatic then some ⟨name, info.sort⟩ else none

end SymbolTable

end TemplateAnalysis
