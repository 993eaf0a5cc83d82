import TemplateAnalysis.NameMap

/-! # Settings

Options are a flat bag of named values. An analysis reads the few it knows and takes a default for
each one that is unset or of the wrong kind.
-/

namespace TemplateAnalysis

/-- The value of an option. -/
inductive OptionValue where
  | bool (b : Bool)
  | unsigned (n : Nat)
deriving DecidableEq

/-- Named options. -/
abbrev Options := NameMap OptionValue

namespace Options

/-- The option is set to `true`; anything else counts as `false`. -/
def isTrue (options : Options) (name : String) : Bool :=
  NameMap.find? options name == some (.bool true)

/-- The number an option is set to. -/
def unsigned? (options : Options) (name : String) : Option Nat :=
  match NameMap.find? options name with
  | some (.unsigned n) => some n
  | _ => none

end Options

/-- Whether solver sessions are opened with support for refinement. -/
def refineOption : String := "refine"

/-- The bounds of one analysis. -/
structure Limits where
  refine : Bool := false
  /-- the most components a ranking function may have -/
  rankingComponents : Nat := 3
  /-- the most coefficient searches between two refinements -/
  rankingSearches : Nat := 20
  /-- the highest refinement level of predicates -/
  predicateLevel : Nat := 0
deriving DecidableEq

namespace Limits

/-- The limits that options ask for. A ranking function has at least one component. -/
def ofOptions (options : Options) : Limits where
  refine := options.isTrue refineOption
  rankingComponents :=
    max 1 ((options.unsigned? "lexicographic-ranking").getD ({} : Limits).rankingComponents)
  rankingSearches :=
    (options.unsigned? "max-inner-ranking-iterations").getD ({} : Limits).rankingSearches
  predicateLevel := (options.unsigned? "max-refinement").getD ({} : Limits).predicateLevel

end Limits

end TemplateAnalysis
