import TemplateAnalysis.Expr.Eval
import TemplateAnalysis.Name
import TemplateAnalysis.Settings
import TemplateAnalysis.Template.Domain

/-! # Ranking templates

Every row belongs to a back edge, and its value is a tuple of linear functions over the loop
variables, without constant terms. The tuple ranks a transition if some component decreases and is
not negative before it, while all earlier components stay equal.

A transition that the current tuple does not rank becomes a constraint on the coefficients,
collected in a session of the row's own, and a model of that session is the next tuple. The row is
given up when there is none, when the session cannot tell, or when the searches allowed between two
refinements are used up. A refinement allows one component more and forgets the sessions.
-/

namespace TemplateAnalysis

/-- The value of a ranking row. -/
inductive Rank where
  /-- no transition seen -/
  | bottom
  /-- for each component, the coefficient of each variable -/
  | lexicographic (coefficients : List (List Int64))
  /-- no ranking function found -/
  | unknown
deriving DecidableEq

/-- The value of every ranking row. -/
abbrev RankingValue := List Rank

/-- The rows to be ranked, and how far the search may go. -/
structure RankingTemplate where
  number : Nat
  rows : List TemplateRow := []
  level : Nat := 0
  maxComponents : Nat
  maxSearches : Nat

/-- Where the search for coefficients stands, with sessions `τ` from a source `φ`. -/
structure RankingSearch (φ τ : Type) where
  source : φ
  /-- the sessions opened since the last refinement, by row -/
  sessions : List (Nat × τ) := []
  /-- the searches made since the last refinement -/
  searches : Nat := 0
  done : Bool := false
  /-- the searches that stayed open, over all refinements -/
  openAnswers : Nat := 0

/-- The linear combination of expressions. -/
def linear (coefficients : List Int64) (exprs : List Expr) : Expr :=
  (coefficients.zip exprs).foldl (fun sum (c, e) => sum.add (Expr.mul (.int c) e)) (.int 0)

namespace RankingTemplate

/-- A template without rows. At least one component is always allowed. -/
def empty (number : Nat) (limits : Limits) : RankingTemplate :=
  { number
    maxComponents := max 1 limits.rankingComponents
    maxSearches := limits.rankingSearches }

/-- The template with one more row. -/
def addRow (template : RankingTemplate) (row : TemplateRow) : RankingTemplate :=
  { template with rows := template.rows ++ [row] }

/-- The template of the given rows. -/
def ofRows (number : Nat) (limits : Limits) (rows : List TemplateRow) : RankingTemplate :=
  { empty number limits with rows }

variable (template : RankingTemplate)

/-- The number of components at the current level. -/
def components : Nat := template.level + 1

/-- The value of a component before a transition. -/
def before (vars : List (Expr × Expr)) (coefficients : List Int64) : Expr :=
  linear coefficients (vars.map (·.1))

/-- The value of a component after a transition. -/
def after (vars : List (Expr × Expr)) (coefficients : List Int64) : Expr :=
  linear coefficients (vars.map (·.2))

/-- A tuple ranks the transition: some component decreases from a value that is not negative, and
those before it stay equal. -/
def lexDecrease (vars : List (Expr × Expr)) (tuple : List (List Int64)) : Expr :=
  Expr.disj (tuple.zipIdx.map fun (component, j) =>
    let level := (tuple.take j).map fun earlier =>
      (before vars earlier).equal (after vars earlier)
    let decrease := (before vars component).gt (after vars component)
    let bounded := (before vars component).ge (.int 0)
    Expr.conj (level ++ [decrease, bounded]))

/-- The symbol of a coefficient. -/
def coefficient (row component index : Nat) : Symbol :=
  (Name.coefficient template.number row component index).int

/-- The linear form over the coefficients of a component with the given numbers. -/
def coefficientForm (row component : Nat) (numbers : List Int64) : Expr :=
  numbers.zipIdx.foldl (fun sum (n, k) =>
    sum.add (Expr.mul (.var (template.coefficient row component k)) (.int n))) (.int 0)

/-- The coefficients rank the transition from one vector to another. -/
def coefficientConstraint (row : Nat) (pre post : List Int64) : Expr :=
  let difference := pre.zipWith (· - ·) post
  Expr.disj ((List.range template.components).map fun j =>
    let level := (List.range j).map fun i =>
      (template.coefficientForm row i difference).equal (.int 0)
    Expr.conj (level ++
      [(template.coefficientForm row j difference).gt (.int 0),
        (template.coefficientForm row j pre).ge (.int 0)]))

/-- The value in which no transition has been seen. -/
def newValue : RankingValue := template.rows.map fun _ => .bottom

/-- The transition of a row. -/
def transition (row : TemplateRow) : Expr := row.preGuard.and row.postGuard

/-- For each row, the transitions that its tuple does not rank. -/
def violations (value : RankingValue) : Except Failure (List Expr) :=
  template.rows.zipIdx.mapM fun (row, i) =>
    match value[i]? with
    | none => .error (.missingRow i)
    | some .bottom => .ok (transition row)
    | some .unknown => .ok (.bool false)
    | some (.lexicographic tuple) =>
      .ok ((transition row).and (lexDecrease row.rankingVars tuple).not)

/-- The ranking functions of all rows, over the variables before a transition. -/
def functions (value : RankingValue) : Except Failure (List (Option (List Expr))) :=
  template.rows.zipIdx.mapM fun (row, i) =>
    match value[i]? with
    | none => .error (.missingRow i)
    | some (.lexicographic tuple) => .ok (some (tuple.map (before row.rankingVars)))
    | some _ => .ok none

/-- The ranked rows over the given symbols, as a formula. -/
def project (value : RankingValue) (symbols : SymbolSet) : Except Failure Expr :=
  Template.conjParts (template.rows.zipIdx.filterMap fun (row, i) =>
    match value[i]? with
    | none => some (.error (.missingRow i))
    | some (.lexicographic tuple) =>
      if row.rankingVars.all fun (pre, _) => pre.isOver symbols then
        some (.ok ((transition row).implies (lexDecrease row.rankingVars tuple)))
      else none
    | some _ => none)

/-- Some row has been given up. -/
def needsRefinement (value : RankingValue) : Bool := value.any (· == .unknown)

/-- The tuple that a valuation gives to the coefficients of a row over `width` variables; missing ones
are zero. -/
def tupleOf (row width : Nat) (v : Valuation) : List (List Int64) :=
  (List.range template.components).map fun j =>
    (List.range width).map fun k => (v.int? (template.coefficient row j k)).getD 0

/-- What a row becomes after a search for its coefficients. -/
def rankFound (row width : Nat) (found : Valuation) : Verdict → Rank
  | .sat => .lexicographic (template.tupleOf row width found)
  | _ => .unknown

end RankingTemplate

/-- What a search for coefficients gave. -/
structure CoefficientAnswer (φ τ : Type) where
  verdict : Except SolverError Verdict
  found : Valuation
  search : RankingSearch φ τ
  transcript : Transcript

namespace RankingSearch

variable {φ τ : Type} [Solver τ] [SessionSource φ τ]

/-- Ask the session of a row, opened on first use, for coefficients that satisfy one more
constraint. -/
def ask (search : RankingSearch φ τ) (row : Nat) (constraint : Expr) : CoefficientAnswer φ τ :=
  let (session, source, opening) :=
    SessionSource.obtain false (search.sessions.lookup row) search.source
  let (verdict, session) := Solver.solve (Solver.assert constraint session)
  { verdict
    found := Solver.valuation session
    search := { search with
      source
      sessions := (row, session) :: search.sessions.eraseP (·.1 == row)
      searches := search.searches + 1
      openAnswers := search.openAnswers + if verdict matches .ok .unknown then 1 else 0 }
    transcript := opening ++
      [⟨Solver.id session, .asserted constraint⟩, ⟨Solver.id session, .solved verdict⟩] }

@[simp] theorem searches_ask (search : RankingSearch φ τ) (row : Nat) (constraint : Expr) :
    (search.ask row constraint).search.searches = search.searches + 1 := rfl

end RankingSearch

namespace RankingTemplate

variable {φ τ : Type} [Solver τ] [SessionSource φ τ] (template : RankingTemplate)

/-- A row without searches left is given up. -/
def abandon (row : Nat) (search : RankingSearch φ τ) (value : RankingValue) :
    Reply (RankingSearch φ τ) RankingValue :=
  match value[row]? with
  | none => { outcome := .error (.missingRow row), search, value }
  | some .unknown => { outcome := .ok false, search, value }
  | some _ => { outcome := .ok true, search, value := value.set row .unknown }

/-- The vector a valuation gives to expressions; unknown ones are zero. -/
def vector (m : Valuation) (exprs : List Expr) : List Int64 :=
  exprs.map fun e => (e.evalInt m).getD 0

/-- Ask for coefficients that rank the transition of a valuation as well. -/
def pursue (m : Valuation) (row : Nat) (vars : List (Expr × Expr)) (search : RankingSearch φ τ) :
    CoefficientAnswer φ τ :=
  search.ask row (template.coefficientConstraint row (vector m (vars.map (·.1)))
    (vector m (vars.map (·.2))))

/-- A transition that is not ranked: look for a tuple that ranks it and all before it. -/
def refute (m : Valuation) (row : Nat) (search : RankingSearch φ τ) (value : RankingValue) :
    Reply (RankingSearch φ τ) RankingValue :=
  if template.maxSearches ≤ search.searches then abandon row search value
  else
    match template.rows[row]? with
    | none => { outcome := .error (.missingRow row), search, value }
    | some templateRow =>
      let vars := templateRow.rankingVars
      let asked := template.pursue m row vars search
      let reply (outcome : Except Failure Bool) (value : RankingValue) :
          Reply (RankingSearch φ τ) RankingValue :=
        { outcome, search := asked.search, value, transcript := asked.transcript }
      match asked.verdict with
      | .error error => reply (.error (.solver error)) value
      | .ok verdict =>
        if row < value.length then
          reply (.ok true) (value.set row (template.rankFound row vars.length asked.found verdict))
        else reply (.error (.missingRow row)) value

/-- The replies to a transition that is not ranked. -/
inductive Refuted (m : Valuation) (row : Nat) (search : RankingSearch φ τ) (value : RankingValue) :
    Reply (RankingSearch φ τ) RankingValue → Prop
  | unheld (spent : template.maxSearches ≤ search.searches) (missing : value[row]? = none) :
      Refuted m row search value { outcome := .error (.missingRow row), search, value }
  | givenUp (spent : template.maxSearches ≤ search.searches)
      (held : value[row]? = some .unknown) :
      Refuted m row search value { outcome := .ok false, search, value }
  | abandoned {rank : Rank} (spent : template.maxSearches ≤ search.searches)
      (held : value[row]? = some rank) (live : rank ≠ .unknown) :
      Refuted m row search value { outcome := .ok true, search, value := value.set row .unknown }
  | noRow (left : search.searches < template.maxSearches) (missing : template.rows[row]? = none) :
      Refuted m row search value { outcome := .error (.missingRow row), search, value }
  | failed {templateRow : TemplateRow} {asked : CoefficientAnswer φ τ} {error : SolverError}
      (left : search.searches < template.maxSearches)
      (isRow : template.rows[row]? = some templateRow)
      (isAsked : asked = template.pursue m row templateRow.rankingVars search)
      (raised : asked.verdict = .error error) :
      Refuted m row search value
        { outcome := .error (.solver error), search := asked.search, value,
          transcript := asked.transcript }
  | answered {templateRow : TemplateRow} {asked : CoefficientAnswer φ τ} {verdict : Verdict}
      (left : search.searches < template.maxSearches)
      (isRow : template.rows[row]? = some templateRow)
      (isAsked : asked = template.pursue m row templateRow.rankingVars search)
      (told : asked.verdict = .ok verdict) (held : row < value.length) :
      Refuted m row search value
        { outcome := .ok true, search := asked.search,
          value := value.set row
            (template.rankFound row templateRow.rankingVars.length asked.found verdict),
          transcript := asked.transcript }
  | unplaced {templateRow : TemplateRow} {asked : CoefficientAnswer φ τ} {verdict : Verdict}
      (left : search.searches < template.maxSearches)
      (isRow : template.rows[row]? = some templateRow)
      (isAsked : asked = template.pursue m row templateRow.rankingVars search)
      (told : asked.verdict = .ok verdict) (missing : value[row]? = none) :
      Refuted m row search value
        { outcome := .error (.missingRow row), search := asked.search, value,
          transcript := asked.transcript }

theorem refuted_refute (m : Valuation) (row : Nat) (search : RankingSearch φ τ)
    (value : RankingValue) :
    template.Refuted m row search value (template.refute m row search value) := by
  unfold refute
  split
  · next spent =>
    unfold abandon
    split
    · next missing => exact .unheld spent missing
    · next held => exact .givenUp spent held
    · next live held => exact .abandoned spent held live
  · next left =>
    have left : search.searches < template.maxSearches := by omega
    split
    · next missing => exact .noRow left missing
    · next templateRow isRow =>
      dsimp only
      split
      · next raised => exact .failed left isRow rfl raised
      · next told =>
        split
        · next held => exact .answered left isRow rfl told held
        · next missing =>
          exact .unplaced left isRow rfl told (List.getElem?_eq_none (by omega))

/-- The next level, up to the number of components allowed; the sessions are forgotten. -/
def refine? (search : RankingSearch φ τ) : Option (RankingTemplate × RankingSearch φ τ) :=
  if template.maxComponents ≤ template.level + 1 then none
  else some ({ template with level := template.level + 1 },
    { search with sessions := [], searches := 0 })

/-- A bound on the changes still to come. A search that is left may rank a row that was given up, so
it weighs twice as much as a row that has not been given up. -/
def work (search : RankingSearch φ τ) (value : RankingValue) : Nat :=
  2 * (template.maxSearches - search.searches) + value.countP (· != .unknown)

end RankingTemplate

instance {φ τ : Type} [Solver τ] [SessionSource φ τ] :
    TemplateDomain RankingTemplate (RankingSearch φ τ) RankingValue where
  number := RankingTemplate.number
  level := RankingTemplate.level
  newValue := RankingTemplate.newValue
  restart _ search := { search with done := false }
  assumption _ _ _ := .ok (.bool true)
  violations template _ value := template.violations value
  refute := RankingTemplate.refute
  confirm _ search value := { outcome := .ok false, search := { search with done := true }, value }
  giveUp _ search value := { outcome := .ok false, search := { search with done := true }, value }
  hasWork search := !search.done
  beginRound search := search
  endRound search := search
  needsRefinement _ value := RankingTemplate.needsRefinement value
  refine := RankingTemplate.refine?
  openAnswers search := search.openAnswers
  project := RankingTemplate.project
  work := RankingTemplate.work
  refinementsLeft template := template.maxComponents - (template.level + 1)

namespace RankingTemplate

variable {φ τ : Type} [Solver τ] [SessionSource φ τ]

/-- A row may become ranked, which adds one to the rows that are not given up. -/
theorem countP_setRow_le (value : RankingValue) (row : Nat) (rank : Rank) :
    (value.set row rank).countP (· != .unknown) ≤ value.countP (· != .unknown) + 1 := by
  induction value generalizing row with
  | nil => simp
  | cons first rest ih =>
    cases row with
    | zero =>
      simp only [List.set_cons_zero, List.countP_cons]
      split <;> split <;> omega
    | succ row =>
      have tail := ih row
      simp only [List.set_cons_succ, List.countP_cons]
      omega

/-- Giving up a row takes it out of those that are not given up. -/
theorem countP_abandon_lt (value : RankingValue) (row : Nat) (rank : Rank)
    (held : value[row]? = some rank) (live : rank ≠ .unknown) :
    (value.set row .unknown).countP (· != .unknown) < value.countP (· != .unknown) := by
  induction value generalizing row with
  | nil => simp at held
  | cons first rest ih =>
    cases row with
    | zero =>
      simp only [List.getElem?_cons_zero, Option.some.injEq] at held
      subst held
      simp [live]
    | succ row =>
      simp only [List.getElem?_cons_succ] at held
      have tail := ih row held
      simp only [List.set_cons_succ, List.countP_cons]
      omega

/-- Every change of a row is paid for: with a search, or with a row given up. -/
theorem work_refute (template : RankingTemplate) (m : Valuation) (row : Nat)
    (search : RankingSearch φ τ) (value : RankingValue) (changed : Bool)
    (answered : (template.refute m row search value).outcome = .ok changed) :
    template.work (template.refute m row search value).search
        (template.refute m row search value).value + changed.toNat ≤
      template.work search value := by
  have refuted := template.refuted_refute m row search value
  generalize template.refute m row search value = reply at answered refuted ⊢
  cases refuted with
  | givenUp spent held =>
    cases answered
    exact Nat.le_refl _
  | abandoned spent held live =>
    cases answered
    have fewer := countP_abandon_lt value row _ held live
    simp only [work, Bool.toNat_true]
    omega
  | answered left isRow isAsked told held =>
    cases answered
    rw [isAsked, work, pursue, RankingSearch.searches_ask, Bool.toNat_true]
    have rows := countP_setRow_le value row
    refine Nat.le_trans (Nat.add_le_add_right (Nat.add_le_add_left (rows _) _) 1) ?_
    simp only [work]
    omega
  | unheld => cases answered
  | noRow => cases answered
  | failed => cases answered
  | unplaced => cases answered

end RankingTemplate

instance {φ τ : Type} [Solver τ] [SessionSource φ τ] :
    FiniteDomain RankingTemplate (RankingSearch φ τ) RankingValue where
  work_beginRound _ _ _ := Nat.le_refl _
  work_endRound _ _ _ := Nat.le_refl _
  work_refute := RankingTemplate.work_refute
  work_confirm _ _ _ answered := by cases answered
  work_giveUp _ _ _ _ := by intro _ answered; cases answered
  refinementsLeft_refine template _ search _ refined := by
    change template.refine? search = _ at refined
    unfold RankingTemplate.refine? at refined
    split at refined
    · cases refined
    · cases refined
      change template.maxComponents - (template.level + 1 + 1) <
        template.maxComponents - (template.level + 1)
      omega

end TemplateAnalysis
