import TemplateAnalysis.Expr.Simplify
import TemplateAnalysis.Solver.Session
import TemplateAnalysis.Template.Row

/-! # Template domains

A template domain has three parts. The template says what may be found out: its rows and how far it
may be enlarged. A value is what has been found out so far. A search is where the exploration
stands: what is still to be tried, and the sessions it keeps for itself.

One round of a search assumes what the value says of the state before a transition and asks for a
transition after which some row is violated. The domain is told which rows such a transition
violates, or that there is none, or that the question stayed open.
-/

namespace TemplateAnalysis

/-- Why a question to a domain has no answer. -/
inductive Failure where
  | solver (error : SolverError)
  /-- the value has no entry for a row -/
  | missingRow (row : Nat)

/-- What a domain makes of the outcome of a query: whether anything changed, and where it stands. -/
structure Reply (ι V : Type) where
  outcome : Except Failure Bool
  search : ι
  value : V
  transcript : Transcript := []

/-- A template domain, with templates `δ`, searches `ι` and values `V`. -/
class TemplateDomain (δ ι V : Type) where
  /-- the number that keeps the auxiliary symbols of domains apart -/
  number : δ → Nat
  /-- the refinement level -/
  level : δ → Nat
  /-- the value that says nothing -/
  newValue : δ → V
  /-- begin the search anew -/
  restart : δ → ι → ι
  /-- what may be assumed of the state before a transition -/
  assumption : δ → ι → V → Except Failure Expr
  /-- for each row, the transitions that violate it -/
  violations : δ → ι → V → Except Failure (List Expr)
  /-- a transition, given by a valuation, violates the row -/
  refute : δ → Valuation → Nat → ι → V → Reply ι V
  /-- no transition violates a row -/
  confirm : δ → ι → V → Reply ι V
  /-- it stays open whether some transition violates a row -/
  giveUp : δ → ι → V → Reply ι V
  /-- there is something left to try -/
  hasWork : ι → Bool
  /-- begin a round -/
  beginRound : ι → ι
  /-- end a round -/
  endRound : ι → ι
  /-- a larger template might say more -/
  needsRefinement : δ → V → Bool
  /-- enlarge the template, within its bounds -/
  refine : δ → ι → Option (δ × ι)
  /-- how many queries to the search's own sessions stayed open -/
  openAnswers : ι → Nat
  /-- the value as a formula over the given symbols; an empty set stands for all symbols -/
  project : δ → V → SymbolSet → Except Failure Expr
  /-- a bound on the rounds that change anything -/
  work : δ → ι → V → Nat
  /-- a bound on the number of refinements -/
  refinementsLeft : δ → Nat

/-- A template domain whose searches come to an end: whatever changes in a round is paid for from a
finite amount of work, and a template can be enlarged only so often. -/
class FiniteDomain (δ ι V : Type) [TemplateDomain δ ι V] : Prop where
  work_beginRound : ∀ (d : δ) (s : ι) (v : V),
    TemplateDomain.work d (TemplateDomain.beginRound δ V s) v ≤ TemplateDomain.work d s v
  work_endRound : ∀ (d : δ) (s : ι) (v : V),
    TemplateDomain.work d (TemplateDomain.endRound δ V s) v ≤ TemplateDomain.work d s v
  work_refute : ∀ (d : δ) (m : Valuation) (row : Nat) (s : ι) (v : V) (changed : Bool),
    (TemplateDomain.refute d m row s v).outcome = .ok changed →
    TemplateDomain.work d (TemplateDomain.refute d m row s v).search
        (TemplateDomain.refute d m row s v).value + changed.toNat ≤
      TemplateDomain.work d s v
  work_confirm : ∀ (d : δ) (s : ι) (v : V),
    (TemplateDomain.confirm d s v).outcome = .ok true →
    TemplateDomain.work d (TemplateDomain.confirm d s v).search
      (TemplateDomain.confirm d s v).value < TemplateDomain.work d s v
  work_giveUp : ∀ (d : δ) (s : ι) (v : V), TemplateDomain.hasWork δ V s = true →
    let begun := TemplateDomain.beginRound δ V s
    (TemplateDomain.giveUp d begun v).outcome = .ok true →
    TemplateDomain.work d (TemplateDomain.giveUp d begun v).search
      (TemplateDomain.giveUp d begun v).value < TemplateDomain.work d begun v
  refinementsLeft_refine : ∀ (d d' : δ) (s s' : ι),
    TemplateDomain.refine V d s = some (d', s') →
    TemplateDomain.refinementsLeft ι V d' < TemplateDomain.refinementsLeft ι V d

/-- A domain at work: its template, where its search stands, and its value. -/
structure Domain (δ ι V : Type) where
  template : δ
  search : ι
  value : V

namespace Domain

variable {δ ι V : Type} [TemplateDomain δ ι V] (domain : Domain δ ι V)

/-- The domain of a template, with the value that says nothing. -/
def start (template : δ) (search : ι) : Domain δ ι V :=
  ⟨template, search, TemplateDomain.newValue ι template⟩

/-- The number of the domain. -/
def number : Nat := TemplateDomain.number ι V domain.template

/-- The refinement level. -/
def level : Nat := TemplateDomain.level ι V domain.template

/-- Forget the value. -/
def clear : Domain δ ι V :=
  { domain with value := TemplateDomain.newValue ι domain.template }

/-- Forget the value and begin the search anew. -/
def restart : Domain δ ι V :=
  { domain.clear with search := TemplateDomain.restart V domain.template domain.search }

/-- There is something left to try. -/
def hasWork : Bool := TemplateDomain.hasWork δ V domain.search

/-- Begin a round. -/
def beginRound : Domain δ ι V :=
  { domain with search := TemplateDomain.beginRound δ V domain.search }

/-- End a round. -/
def endRound : Domain δ ι V :=
  { domain with search := TemplateDomain.endRound δ V domain.search }

/-- What may be assumed of the state before a transition. -/
def assumption : Except Failure Expr :=
  TemplateDomain.assumption domain.template domain.search domain.value

/-- For each row, the transitions that violate it. -/
def violations : Except Failure (List Expr) :=
  TemplateDomain.violations domain.template domain.search domain.value

/-- A transition violates the row. -/
def refute (m : Valuation) (row : Nat) : Reply ι V :=
  TemplateDomain.refute domain.template m row domain.search domain.value

/-- No transition violates a row. -/
def confirm : Reply ι V := TemplateDomain.confirm domain.template domain.search domain.value

/-- It stays open whether some transition violates a row. -/
def giveUp : Reply ι V := TemplateDomain.giveUp domain.template domain.search domain.value

/-- The domain after a reply. -/
def adopt (reply : Reply ι V) : Domain δ ι V :=
  { domain with search := reply.search, value := reply.value }

/-- A larger template might say more. -/
def needsRefinement : Bool := TemplateDomain.needsRefinement ι domain.template domain.value

/-- Enlarge the template, within its bounds. -/
def refine? : Option (Domain δ ι V) :=
  (TemplateDomain.refine V domain.template domain.search).map fun (template, search) =>
    { domain with template, search }

/-- How many queries to the search's own sessions stayed open. -/
def openAnswers : Nat := TemplateDomain.openAnswers δ V domain.search

/-- The value as a formula over the given symbols. -/
def project (symbols : SymbolSet) : Except Failure Expr :=
  TemplateDomain.project ι domain.template domain.value symbols

end Domain

namespace Template

/-- The parts up to the first that is `false`, which decides their conjunction. What comes after it
is not asked for, so that a failure there does not matter. -/
def partsUntilFalse : List (Except Failure Expr) → Except Failure (List Expr)
  | [] => .ok []
  | .error failure :: _ => .error failure
  | .ok part :: rest =>
    if part.isFalse then .ok [part] else (partsUntilFalse rest).map (part :: ·)

/-- The conjunction of parts that are asked for one after the other. -/
def conjParts (parts : List (Except Failure Expr)) : Except Failure Expr :=
  (partsUntilFalse parts).map Expr.conj

end Template

end TemplateAnalysis
