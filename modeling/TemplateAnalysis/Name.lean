import TemplateAnalysis.Symbol

/-! # Names of auxiliary symbols

Every symbol that is not a program object has a name of one of the shapes below. Program objects
neither contain `#` nor start with `$`, so the shapes stay apart from them and from each other. A
copy of a symbol in an unwound loop carries the unwinding's suffix behind a `%`.
-/

namespace TemplateAnalysis

/-- The object that holds what a function returns. -/
def returnValue : String := "$return_value"

/-- The shapes of names. -/
inductive Name where
  /-- the value of an object on entry -/
  | input (object : String)
  /-- the value an object is given at a location -/
  | version (object : String) (loc : Nat)
  /-- the value of an object where control flow joins -/
  | phi (object : String) (loc : Nat)
  /-- the value of an object arriving over a back edge -/
  | loopBack (object : String) (backEdge : Nat)
  /-- the literal that chooses a back edge at its loop head -/
  | loopSelect (backEdge : Nat)
  /-- the literal that says a location is reached -/
  | guard (loc : Nat)
  /-- the branch condition of a location -/
  | cond (loc : Nat)
  /-- the `k`-th open value of a location -/
  | nondet (loc k : Nat)
  /-- the literal that switches on one unwinding of a loop -/
  | enable (head : Nat) (suffix : String)
  /-- the literal that says a template row is violated -/
  | violation (domain row : Nat)
  /-- a coefficient of a ranking function -/
  | coefficient (domain row component index : Nat)
deriving DecidableEq

namespace Name

/-- The text of a name. -/
def text : Name → String
  | .input object => object ++ "#in"
  | .version object loc => object ++ "#" ++ toString loc
  | .phi object loc => object ++ "#phi" ++ toString loc
  | .loopBack object backEdge => object ++ "#lb" ++ toString backEdge
  | .loopSelect backEdge => "$guard#ls" ++ toString backEdge
  | .guard loc => "$guard#" ++ toString loc
  | .cond loc => "$cond#" ++ toString loc
  | .nondet loc k => "$nondet#" ++ toString loc ++ "." ++ toString k
  | .enable head suffix => "$enable#" ++ toString head ++ "%" ++ suffix
  | .violation domain row => "$tpl#" ++ toString domain ++ ".cond" ++ toString row
  | .coefficient domain row component index =>
    "$tpl#" ++ toString domain ++ ".c" ++ toString row ++ "." ++ toString component ++ "." ++
      toString index

/-- The symbol of a name and a sort. -/
def symbol (name : Name) (sort : ValueSort) : Symbol := ⟨name.text, sort⟩

/-- The literal of a name. -/
def bool (name : Name) : Symbol := name.symbol .bool

/-- The integer symbol of a name. -/
def int (name : Name) : Symbol := name.symbol .int

end Name

namespace Symbol

/-- The object a versioned symbol belongs to: its name up to the first `#`. -/
def object (s : Symbol) : String := String.ofList (s.name.toList.takeWhile (· != '#'))

/-- The symbol is an entry value or an open value. -/
def isInput (s : Symbol) : Bool :=
  "#in".toList.isSuffixOf s.name.toList || "$nondet".toList.isPrefixOf s.name.toList

/-- The copy of a symbol in the unwinding with the given suffix; without a suffix it is the symbol
itself. -/
def unwound (s : Symbol) (suffix : String) : Symbol :=
  if suffix = "" then s else { s with name := s.name ++ "%" ++ suffix }

end Symbol

end TemplateAnalysis
