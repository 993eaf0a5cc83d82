/-! # Unwinding counters

An odometer holds one counter for each loop that is entered, outermost first. Unwinding the
innermost loop once more increments the last counter. A symbol defined at nesting depth `d` is
copied under the first `d` counters, so unwinding an inner loop further renames nothing that the
outer counters have already produced.
-/

namespace TemplateAnalysis

/-- Why a counter cannot be incremented. -/
inductive OdometerError where
  /-- no loop has been entered -/
  | outsideLoop
  /-- the counter is at its largest value -/
  | overflow
deriving DecidableEq

/-- The wording of an error, for those that have one. -/
def OdometerError.message? : OdometerError → Option String
  | .outsideLoop => some "increment outside of any loop"
  | .overflow => none

/-- Unwinding counters, outermost first. -/
structure Odometer where
  levels : List Nat := []
deriving DecidableEq

namespace Odometer

/-- The largest value of a counter. -/
def maxLevel : Nat := UInt32.size - 1

/-- The number of loops entered. -/
def depth (o : Odometer) : Nat := o.levels.length

/-- The counter of the innermost loop. -/
def current? (o : Odometer) : Option Nat := o.levels.getLast?

/-- Enter a loop that has already been unwound `level` times here. -/
def enter (o : Odometer) (level : Nat) : Odometer := ⟨o.levels ++ [level]⟩

/-- Leave the innermost loop. -/
def leave (o : Odometer) : Odometer := ⟨o.levels.dropLast⟩

/-- Change the counter of the innermost loop, if there is one. -/
def modify (f : Nat → Nat) (o : Odometer) : Odometer :=
  match o.levels.getLast? with
  | some level => ⟨o.levels.dropLast ++ [f level]⟩
  | none => o

/-- The next unwinding of the innermost loop. -/
def increment (o : Odometer) : Except OdometerError Odometer :=
  match o.levels.getLast? with
  | none => .error .outsideLoop
  | some level => if level < maxLevel then .ok (o.modify (· + 1)) else .error .overflow

/-- The previous unwinding of the innermost loop; the first one stays. -/
def decrement (o : Odometer) : Odometer := o.modify (· - 1)

/-- Enter the innermost loop anew. -/
def reset (o : Odometer) : Odometer := o.modify fun _ => 0

/-- The first `depth` of the given counters, padded with zeros. -/
def padded (levels : List Nat) (depth : Nat) : List Nat :=
  levels.take depth ++ List.replicate (depth - levels.length) 0

/-- Counters with a dot between them. -/
def dotted (levels : List Nat) : String := ".".intercalate (levels.map toString)

/-- The suffix of a symbol defined at nesting depth `depth`. Where no loop has been unwound it is
empty. -/
def suffixOf (levels : List Nat) (depth : Nat) : String :=
  if (padded levels depth).all (· == 0) then "" else dotted (padded levels depth)

/-- The suffix of a symbol defined at nesting depth `depth`, under these counters. -/
def suffix (o : Odometer) (depth : Nat) : String := suffixOf o.levels depth

/-- The written form of an odometer. -/
def text (o : Odometer) : String := "[" ++ dotted o.levels ++ "]"

end Odometer

end TemplateAnalysis
