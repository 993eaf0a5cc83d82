import TemplateAnalysis.Expr.Replace
import TemplateAnalysis.Settings
import TemplateAnalysis.Template.Domain
import TemplateAnalysis.Template.Observation

/-! # Predicate templates

Every row is a candidate predicate, and a value says which candidates are selected. Candidates are
tried one at a time, in row order: the candidate is assumed before a transition, together with all
that is selected, and checked after it. A candidate that no transition violates is selected for
good. One that is violated is tried again after a round through the candidates in which another was
selected, since more may be assumed then.
-/

namespace TemplateAnalysis

/-- Candidate predicates, and how far they may be extended. -/
structure PredicateTemplate where
  number : Nat
  rows : List TemplateRow := []
  level : Nat := 0
  maxLevel : Nat

/-- For each row, whether it is selected. -/
abbrev PredicateValue := List Bool

/-- What is left to try. The candidate under test is the first of the untried. -/
structure PredicateSearch where
  untried : List Nat := []
  rejected : List Nat := []
  testing : Bool := false
  /-- something was selected since the candidates were last lined up -/
  committed : Bool := false

namespace PredicateSearch

/-- The row under test. -/
def candidate? (search : PredicateSearch) : Option Nat :=
  if search.testing then search.untried.head? else none

/-- The candidate under test is tried, and is no longer under test. -/
def tried (search : PredicateSearch) : PredicateSearch :=
  { search with untried := search.untried.tail, testing := false }

end PredicateSearch

namespace PredicateTemplate

/-- A template without rows. -/
def empty (number : Nat) (limits : Limits) : PredicateTemplate :=
  { number, maxLevel := limits.predicateLevel }

/-- The template with one more row. -/
def addRow (template : PredicateTemplate) (row : TemplateRow) : PredicateTemplate :=
  { template with rows := template.rows ++ [row] }

/-- Two observations are made in the same context. -/
def sameContext (a b : Observation) : Bool :=
  a.role == b.role && a.preGuard == b.preGuard && a.postGuard == b.postGuard

/-- Put an observation into the first group made in its context, or into one of its own. -/
def addToGroup (o : Observation) : List (List Observation) → List (List Observation)
  | [] => [[o]]
  | group :: rest =>
    if group.head?.any fun first => sameContext first o then (group ++ [o]) :: rest
    else group :: addToGroup o rest

/-- Observations by context, in order of first appearance. -/
def groups (observations : List Observation) : List (List Observation) :=
  observations.foldl (fun groups o => addToGroup o groups) []

/-- The row for a candidate over program objects in one context, if the context observes all its
objects. -/
def instantiate (candidate : Expr) (tier : Nat) (group : List Observation) : Option TemplateRow :=
  let observed (s : Symbol) : Option Observation := group.find? fun o => o.object == s
  match group with
  | [] => none
  | first :: _ =>
    if candidate.symbols.all fun s => (observed s).isSome then
      some {
        shape := .predicate
          (candidate.rename fun s => (observed s).map (·.var))
          (candidate.rename fun s => (observed s).map (·.postVar))
        preGuard := first.preGuard
        postGuard := first.postGuard
        role := first.role
        tier }
    else none

/-- The rows for candidates over program objects, wherever they can be observed. -/
def candidateRows (candidates : List Expr) (observations : List Observation) (tier : Nat) :
    List TemplateRow :=
  candidates.flatMap fun candidate => (groups observations).filterMap (instantiate candidate tier)

/-- The template with rows for more candidates. -/
def addCandidates (template : PredicateTemplate) (candidates : List Expr)
    (observations : List Observation) (tier : Nat) : PredicateTemplate :=
  { template with rows := template.rows ++ candidateRows candidates observations tier }

/-- The template for candidates over the variables of a summary. -/
def ofSummary (number : Nat) (limits : Limits) (candidates : List Expr)
    (observations : List Observation) : PredicateTemplate :=
  (empty number limits).addCandidates candidates observations 0

variable (template : PredicateTemplate)

/-- The row takes part at the current level. -/
def isActive (row : TemplateRow) : Bool := decide (row.tier ≤ template.level)

/-- What a row says before a transition, under its guard. -/
def statementBefore (row : TemplateRow) : Expr :=
  match row.shape with
  | .predicate pre _ => row.preGuard.implies pre
  | .ranking _ => .bool true

/-- What a row says after a transition, under its guard. -/
def statementAfter (row : TemplateRow) : Expr :=
  match row.shape with
  | .predicate _ post => row.postGuard.implies post
  | .ranking _ => .bool true

/-- The value in which nothing is selected. -/
def newValue : PredicateValue := template.rows.map fun _ => false

/-- Line up the rows that take part. -/
def lineUp : PredicateSearch :=
  { untried := (template.rows.zipIdx.filter fun (row, _) => template.isActive row).map (·.2) }

/-- All that is selected or under test, before a transition. -/
def assumption (search : PredicateSearch) (value : PredicateValue) : Except Failure Expr :=
  Template.conjParts
    ((template.rows.zipIdx.filter fun (row, _) => row.isAssumed).map fun (row, i) =>
      match value[i]? with
      | none => .error (.missingRow i)
      | some selected =>
        if selected || search.candidate? == some i then .ok (statementBefore row)
        else .ok (.bool true))

/-- The violation of the row under test; no other row is tested. -/
def violations (search : PredicateSearch) : List Expr :=
  template.rows.zipIdx.map fun (row, i) =>
    match row.shape with
    | .predicate _ post =>
      if search.candidate? == some i && row.isChecked then row.postGuard.and post.not
      else .bool false
    | .ranking _ => .bool false

/-- The candidate under test is violated. -/
def refute (row : Nat) (search : PredicateSearch) (value : PredicateValue) :
    Reply PredicateSearch PredicateValue :=
  if search.candidate? = some row then
    { outcome := .ok true
      search := { search.tried with rejected := search.rejected ++ [row] }
      value }
  else { outcome := .ok false, search, value }

/-- The candidate under test is selected. -/
def confirm (search : PredicateSearch) (value : PredicateValue) :
    Reply PredicateSearch PredicateValue :=
  match search.candidate? with
  | none => { outcome := .ok false, search := { search with testing := false }, value }
  | some row =>
    if row < value.length then
      { outcome := .ok true
        search := { search.tried with committed := true }
        value := value.set row true }
    else { outcome := .error (.missingRow row), search := search.tried, value }

/-- The candidate under test is dropped. -/
def giveUp (search : PredicateSearch) (value : PredicateValue) :
    Reply PredicateSearch PredicateValue :=
  match search.candidate? with
  | none => { outcome := .ok true, search := { search with testing := false }, value }
  | some _ => { outcome := .ok true, search := search.tried, value }

/-- After the last candidate, those rejected are lined up again if anything was selected. -/
def endRound (search : PredicateSearch) : PredicateSearch :=
  if search.untried.isEmpty && search.committed then { untried := search.rejected }
  else { search with testing := false }

/-- Rows of a higher tier are waiting and may be reached. -/
def needsRefinement : Bool :=
  decide (template.level < template.maxLevel) &&
    template.rows.any fun row => decide (template.level < row.tier)

/-- The next level, up to the highest. -/
def refine? : Option PredicateTemplate :=
  if template.maxLevel ≤ template.level then none
  else some { template with level := template.level + 1 }

/-- The selected rows that speak about the given symbols only, as a formula. -/
def project (value : PredicateValue) (symbols : SymbolSet) : Except Failure Expr :=
  Template.conjParts (template.rows.zipIdx.filterMap fun (row, i) =>
    match value[i]?, row.shape with
    | none, _ => some (.error (.missingRow i))
    | some true, .predicate pre post =>
      let after := row.role == .output
      if (if after then post else pre).isOver symbols then
        some (.ok (if after then statementAfter row else statementBefore row))
      else none
    | some _, _ => none)

/-- The sum of the numbers up to `n`. -/
def triangle : Nat → Nat
  | 0 => 0
  | n + 1 => triangle n + (n + 1)

/-- A bound on the candidates still to be tried. After those lined up now, at most all that are not
selected follow, then at most one less, and so on. -/
def work (search : PredicateSearch) : Nat :=
  let waiting := search.untried.length + search.rejected.length
  search.untried.length + triangle (if search.committed then waiting else waiting - 1)

end PredicateTemplate

instance : TemplateDomain PredicateTemplate PredicateSearch PredicateValue where
  number := PredicateTemplate.number
  level := PredicateTemplate.level
  newValue := PredicateTemplate.newValue
  restart template _ := template.lineUp
  assumption := PredicateTemplate.assumption
  violations template search _ := .ok (template.violations search)
  refute _ _ := PredicateTemplate.refute
  confirm _ := PredicateTemplate.confirm
  giveUp _ := PredicateTemplate.giveUp
  hasWork search := !search.untried.isEmpty
  beginRound search := { search with testing := true }
  endRound := PredicateTemplate.endRound
  needsRefinement template _ := template.needsRefinement
  refine template search := template.refine?.map fun refined => (refined, search)
  openAnswers _ := 0
  project := PredicateTemplate.project
  work _ search _ := PredicateTemplate.work search
  refinementsLeft template := template.maxLevel - template.level

namespace PredicateTemplate

theorem triangle_mono {m n : Nat} (le : m ≤ n) : triangle m ≤ triangle n := by
  induction n with
  | zero => simp_all
  | succ n ih =>
    by_cases same : m = n + 1
    · simp [same]
    · have := ih (by omega)
      simp only [triangle]
      omega

theorem triangle_pred (n : Nat) : n + triangle (n - 1) = triangle n := by
  cases n with
  | zero => rfl
  | succ n => simp only [triangle, Nat.add_sub_cancel]; omega

/-- The candidate under test is one of the untried. -/
theorem untried_of_candidate {search : PredicateSearch} {row : Nat}
    (under : search.candidate? = some row) : ∃ rest, search.untried = row :: rest := by
  unfold PredicateSearch.candidate? at under
  split at under
  · cases untried : search.untried with
    | nil => simp [untried] at under
    | cons first rest => simp_all
  · cases under

theorem work_refute (row : Nat) (search : PredicateSearch) (value : PredicateValue)
    (changed : Bool) (answered : (refute row search value).outcome = .ok changed) :
    work (refute row search value).search + changed.toNat ≤ work search := by
  unfold refute at answered ⊢
  split at answered
  · next under =>
    cases answered
    obtain ⟨rest, untried⟩ := untried_of_candidate under
    simp only [under, if_true, work, PredicateSearch.tried, untried, List.tail_cons,
      List.length_cons, List.length_append, List.length_nil, Bool.toNat_true]
    have same : rest.length + (search.rejected.length + (0 + 1)) =
        rest.length + 1 + search.rejected.length := by omega
    rw [same]
    omega
  · next other =>
    cases answered
    simp [other]

theorem work_confirm (search : PredicateSearch) (value : PredicateValue)
    (answered : (confirm search value).outcome = .ok true) :
    work (confirm search value).search < work search := by
  unfold confirm at answered ⊢
  split at answered
  · cases answered
  · next row under =>
    split at answered
    · next held =>
      obtain ⟨rest, untried⟩ := untried_of_candidate under
      simp only [held, if_true, work, PredicateSearch.tried, untried, List.tail_cons,
        List.length_cons]
      have fewer : triangle (rest.length + search.rejected.length) ≤
          triangle (if search.committed then rest.length + 1 + search.rejected.length
            else rest.length + 1 + search.rejected.length - 1) :=
        triangle_mono (by split <;> omega)
      omega
    · cases answered

theorem work_giveUp (search : PredicateSearch) (value : PredicateValue) (row : Nat)
    (under : search.candidate? = some row) :
    work (giveUp search value).search < work search := by
  obtain ⟨rest, untried⟩ := untried_of_candidate under
  simp only [giveUp, under, work, PredicateSearch.tried, untried, List.tail_cons, List.length_cons]
  have fewer : triangle (if search.committed then rest.length + search.rejected.length
        else rest.length + search.rejected.length - 1) ≤
      triangle (if search.committed then rest.length + 1 + search.rejected.length
        else rest.length + 1 + search.rejected.length - 1) :=
    triangle_mono (by split <;> omega)
  omega

theorem work_endRound (search : PredicateSearch) : work (endRound search) ≤ work search := by
  unfold endRound
  split
  · next through =>
    simp only [Bool.and_eq_true, List.isEmpty_iff] at through
    have all := triangle_pred search.rejected.length
    simp only [work, through.1, through.2, List.length_nil, Nat.add_zero, Nat.zero_add, if_true,
      Bool.false_eq_true, if_false]
    omega
  · exact Nat.le_refl _

end PredicateTemplate

instance : FiniteDomain PredicateTemplate PredicateSearch PredicateValue where
  work_beginRound _ _ _ := Nat.le_refl _
  work_endRound _ search _ := PredicateTemplate.work_endRound search
  work_refute _ _ := PredicateTemplate.work_refute
  work_confirm _ := PredicateTemplate.work_confirm
  work_giveUp _ search value working := by
    intro begun _
    cases untried : search.untried with
    | nil =>
      change (!search.untried.isEmpty) = true at working
      simp [untried] at working
    | cons row rest =>
      exact PredicateTemplate.work_giveUp _ value row
        (by simp [begun, TemplateDomain.beginRound, PredicateSearch.candidate?, untried])
  refinementsLeft_refine template _ search _ refined := by
    change (template.refine?.map fun refined => (refined, search)) = _ at refined
    unfold PredicateTemplate.refine? at refined
    split at refined
    · cases refined
    · cases refined
      change template.maxLevel - (template.level + 1) < template.maxLevel - template.level
      omega

end TemplateAnalysis
