import TemplateAnalysis.Fixpoint
import TemplateAnalysis.Store

/-! # Analysis of a procedure

An analysis loads the form of a procedure into its session and iterates a template domain to a
fixpoint. As long as a larger template might say more, the template is enlarged and the iteration
starts over from the value that says nothing.
-/

namespace TemplateAnalysis

/-- How an analysis ended. -/
inductive Status where
  /-- the domain is satisfied with the fixpoint -/
  | converged
  /-- a larger template might say more, but its bounds are reached -/
  | exhausted
  /-- some query stayed open -/
  | unknown
deriving DecidableEq

/-- The written form of a status. -/
def Status.text : Status → String
  | .converged => "converged"
  | .exhausted => "exhausted"
  | .unknown => "unknown"

/-- Why an analysis has no result. -/
inductive AnalysisError where
  | unknownFunction (name : String)
  | failed (failure : Failure)

/-- The wording of an error. A row without an entry has none. -/
def AnalysisError.message? : AnalysisError → Option String
  | .unknownFunction name => some ("no SSA for function '" ++ name ++ "'")
  | .failed (.solver error) => some error.message
  | .failed (.missingRow _) => none

/-- What an analysis found out. -/
structure AnalysisResult (V : Type) where
  function : String
  status : Status
  value : V
  /-- the value as a formula over the symbols asked for -/
  invariant : Expr
  level : Nat
  /-- the queries posed, over all levels -/
  iterations : Nat

/-- Where everything stands after an analysis, whether or not it has a result. -/
structure Analysis (δ ι V φ σ : Type) where
  outcome : Except AnalysisError (AnalysisResult V)
  domain : Domain δ ι V
  store : Store φ σ
  transcript : Transcript := []

section Analyze

variable {δ ι V φ σ : Type} [TemplateDomain δ ι V] [FiniteDomain δ ι V] [Solver σ]
  [SessionSource φ σ]

/-- Iterate to a fixpoint from the value that says nothing, on ever larger templates. -/
def Run.explore (template : δ) (run : Run ι V σ) : Except Failure Status × δ × Run ι V σ :=
  match Run.fixpoint template { run with
      search := TemplateDomain.restart V template run.search
      value := TemplateDomain.newValue ι template } with
  | (.error failure, run) => (.error failure, template, run)
  | (.ok (), run) =>
    if TemplateDomain.needsRefinement ι template run.value then
      match enlarged : TemplateDomain.refine V template run.search with
      | none => (.ok .exhausted, template, run)
      | some (larger, search) =>
        have := FiniteDomain.refinementsLeft_refine (V := V) template larger run.search search
          enlarged
        explore larger { run with search }
    else (.ok .converged, template, run)
termination_by TemplateDomain.refinementsLeft ι V template

/-- Let a domain run against the session of a procedure. Nothing is loaded. -/
def Store.drive? {α : Type} (store : Store φ σ) (name : String) (domain : Domain δ ι V)
    (drive : δ → Run ι V σ → α × Run ι V σ) : Option (α × Run ι V σ × Store φ σ) := do
  let (session, store, transcript) ← store.session? name
  let (answer, run) := drive domain.template
    { search := domain.search, value := domain.value, session, transcript }
  return (answer, run, store.setSession name run.session)

/-- What an exploration found out about a procedure. If any query stayed open since the domain
started, the value may say less than could be found out. -/
def conclude (name : String) (start : ι) (symbols : SymbolSet) (status : Status) (template : δ)
    (run : Run ι V σ) : Except Failure (AnalysisResult V) := do
  let ended : Domain δ ι V := ⟨template, run.search, run.value⟩
  let undecided := run.undecided + (ended.openAnswers - TemplateDomain.openAnswers δ V start)
  return {
    function := name
    status := if undecided = 0 then status else .unknown
    value := run.value
    invariant := ← ended.project symbols
    level := ended.level
    iterations := run.iterations }

/-- Analyze a procedure of the store, and say what holds of the given symbols. Without a result the
value of the domain stays as it was. -/
def analyze (store : Store φ σ) (name : String) (domain : Domain δ ι V) (symbols : SymbolSet) :
    Analysis δ ι V φ σ :=
  let explored := do
    let (_, store, loading) ← store.load? name
    let (found, run, store) ← store.drive? name domain fun template run =>
      let (outcome, larger, run) := run.explore template
      ((outcome, larger), run)
    return (found, run, store, loading)
  match explored with
  | none => { outcome := .error (.unknownFunction name), domain, store }
  | some ((outcome, template), run, store, loading) =>
    let result := do conclude name domain.search symbols (← outcome) template run
    let value :=
      match result with
      | .ok result => result.value
      | .error _ => domain.value
    { outcome := result.mapError .failed
      domain := ⟨template, run.search, value⟩
      store
      transcript := loading ++ run.transcript }

end Analyze

end TemplateAnalysis
