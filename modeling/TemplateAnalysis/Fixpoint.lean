import TemplateAnalysis.Name
import TemplateAnalysis.Template.Domain

/-! # Iteration to a fixpoint

A run drives the search of a template domain with queries to a solver session that already holds the
formulas of a procedure. Every query has a scope of its own: it assumes what the value says before a
transition, introduces a literal for the violation of each row, and asks for a transition that makes
some literal true. A question that stops at a row without an entry in the value is abandoned as it
stands, with its scope open.

Rounds go on as long as the domain has work and the last round changed something. Every round that
changes something is paid for from the work of the domain, so the rounds come to an end.
-/

namespace TemplateAnalysis

/-- Where an iteration stands, with searches `ι`, values `V` and sessions `σ`. -/
structure Run (ι V σ : Type) where
  search : ι
  value : V
  session : σ
  /-- the queries posed -/
  iterations : Nat := 0
  /-- the queries that the session left open -/
  undecided : Nat := 0
  transcript : Transcript := []

namespace Run

variable {δ ι V σ : Type} [Solver σ]

/-- Write down what was asked of the session. -/
def record (action : Action) (run : Run ι V σ) : Run ι V σ :=
  { run with transcript := run.transcript ++ [⟨Solver.id run.session, action⟩] }

/-- Assert a formula. -/
def assert (formula : Expr) (run : Run ι V σ) : Run ι V σ :=
  { run with session := Solver.assert formula run.session }.record (.asserted formula)

/-- Open a scope. -/
def push (run : Run ι V σ) : Run ι V σ :=
  { run with session := Solver.push run.session }.record .pushed

/-- Close the innermost scope. -/
def pop (run : Run ι V σ) : Except SolverError Unit × Run ι V σ :=
  let (answer, session) := Solver.pop run.session
  (answer, { run with session }.record (.popped answer))

/-- Ask the session for a model. -/
def solve (run : Run ι V σ) : Except SolverError Verdict × Run ι V σ :=
  let (answer, session) := Solver.solve run.session
  (answer, { run with session }.record (.solved answer))

/-- Go on from where the domain stands after a reply. -/
def adopt (run : Run ι V σ) (reply : Reply ι V) : Except Failure Bool × Run ι V σ :=
  (reply.outcome, { run with
    search := reply.search
    value := reply.value
    transcript := run.transcript ++ reply.transcript })

variable [TemplateDomain δ ι V]

/-- The rows that may be violated, each with its literal and its violation. -/
def literals (number : Nat) (violations : List Expr) : List (Nat × Symbol × Expr) :=
  (violations.zipIdx.filter fun (violation, _) => !violation.isFalse).map fun (violation, row) =>
    (row, (Name.violation number row).bool, violation)

/-- Assert the assumption and the meaning of the literals. -/
def pose (template : δ) (run : Run ι V σ) :
    Except Failure (List (Nat × Symbol × Expr)) × Run ι V σ :=
  match TemplateDomain.assumption template run.search run.value with
  | .error failure => (.error failure, run)
  | .ok assumption =>
    let run := run.assert assumption
    match TemplateDomain.violations template run.search run.value with
    | .error failure => (.error failure, run)
    | .ok violations =>
      let rows := literals (TemplateDomain.number ι V template) violations
      (.ok rows, rows.foldl (fun run (_, literal, violation) =>
        run.assert (Expr.equal (.var literal) violation)) run)

/-- Tell the domain of every row whose literal holds in the model of the session. -/
def refuteAll (template : δ) :
    List (Nat × Symbol × Expr) → Run ι V σ → Except Failure Bool × Run ι V σ
  | [], run => (.ok false, run)
  | (row, literal, _) :: rest, run =>
    if (Solver.valuation run.session).bool? literal = some true then
      match run.adopt (TemplateDomain.refute template (Solver.valuation run.session) row
          run.search run.value) with
      | (.error failure, run) => (.error failure, run)
      | (.ok changed, run) =>
        let (outcome, run) := refuteAll template rest run
        (outcome.map (changed || ·), run)
    else refuteAll template rest run

/-- Some row is violated: one of the literals is true. -/
def someViolated (rows : List (Nat × Symbol × Expr)) : Expr :=
  Expr.disj (rows.map fun (_, literal, _) => .var literal)

/-- Ask for a transition that violates one of the rows, and tell the domain. Without such rows there
is nothing to ask. -/
def settle (template : δ) (rows : List (Nat × Symbol × Expr)) (run : Run ι V σ) :
    Except Failure Bool × Run ι V σ :=
  if rows.isEmpty then run.adopt (TemplateDomain.confirm template run.search run.value)
  else
    match (run.assert (someViolated rows)).solve with
    | (.error error, run) => (.error (.solver error), run)
    | (.ok .sat, run) => refuteAll template rows run
    | (.ok .unsat, run) => run.adopt (TemplateDomain.confirm template run.search run.value)
    | (.ok .unknown, run) =>
      { run with undecided := run.undecided + 1 }.adopt
        (TemplateDomain.giveUp template run.search run.value)

/-- One query, in the current scope. -/
def query (template : δ) (run : Run ι V σ) : Except Failure Bool × Run ι V σ :=
  match run.pose template with
  | (.error failure, run) => (.error failure, run)
  | (.ok rows, run) => run.settle template rows

/-- One query in a scope of its own. The failure of the query counts before that of the scope. -/
def iterate (template : δ) (run : Run ι V σ) : Except Failure Bool × Run ι V σ :=
  match query template { run with iterations := run.iterations + 1 }.push with
  | (.error (.missingRow row), run) => (.error (.missingRow row), run)
  | (.error (.solver error), run) => (.error (.solver error), run.pop.2)
  | (.ok changed, run) =>
    match run.pop with
    | (.ok (), run) => (.ok changed, run)
    | (.error error, run) => (.error (.solver error), run)

/-- Open a round of the search. -/
def beginRound (δ : Type) [TemplateDomain δ ι V] (run : Run ι V σ) : Run ι V σ :=
  { run with search := TemplateDomain.beginRound δ V run.search }

/-- Close a round of the search. -/
def endRound (δ : Type) [TemplateDomain δ ι V] (run : Run ι V σ) : Run ι V σ :=
  { run with search := TemplateDomain.endRound δ V run.search }

/-- One round: a query between the beginning and the end of a round. -/
def round (template : δ) (run : Run ι V σ) : Except Failure Bool × Run ι V σ :=
  match (run.beginRound δ).iterate template with
  | (.error (.missingRow row), run) => (.error (.missingRow row), run)
  | (outcome, run) => (outcome, run.endRound δ)

/-- The work that the domain has left. -/
def work (template : δ) (run : Run ι V σ) : Nat :=
  TemplateDomain.work template run.search run.value

section Work

@[simp] theorem search_assert (formula : Expr) (run : Run ι V σ) :
    (run.assert formula).search = run.search := rfl

@[simp] theorem value_assert (formula : Expr) (run : Run ι V σ) :
    (run.assert formula).value = run.value := rfl

@[simp] theorem search_solve (run : Run ι V σ) : run.solve.2.search = run.search := rfl

@[simp] theorem value_solve (run : Run ι V σ) : run.solve.2.value = run.value := rfl

@[simp] theorem search_pop (run : Run ι V σ) : run.pop.2.search = run.search := rfl

@[simp] theorem value_pop (run : Run ι V σ) : run.pop.2.value = run.value := rfl

/-- Posing a query leaves the domain where it is. -/
theorem pose_fixes (template : δ) (run : Run ι V σ) :
    (run.pose template).2.search = run.search ∧ (run.pose template).2.value = run.value := by
  have fixes : ∀ (rows : List (Nat × Symbol × Expr)) (run : Run ι V σ),
      let posed := rows.foldl (fun run (_, literal, violation) =>
        run.assert (Expr.equal (.var literal) violation)) run
      posed.search = run.search ∧ posed.value = run.value := by
    intro rows
    induction rows with
    | nil => intro run; exact ⟨rfl, rfl⟩
    | cons row rest ih => intro run; exact ih _
  unfold pose
  split
  · exact ⟨rfl, rfl⟩
  · dsimp only
    split
    · exact ⟨rfl, rfl⟩
    · exact fixes _ _

variable [FiniteDomain δ ι V]

/-- What the violated rows change is paid for. -/
theorem work_refuteAll (template : δ) (rows : List (Nat × Symbol × Expr)) (run : Run ι V σ)
    (changed : Bool) (answered : (refuteAll template rows run).1 = .ok changed) :
    (refuteAll template rows run).2.work template + changed.toNat ≤ run.work template := by
  induction rows generalizing run changed with
  | nil => cases answered; exact Nat.le_refl _
  | cons first rest ih =>
    obtain ⟨row, literal, violation⟩ := first
    unfold refuteAll at answered ⊢
    split at answered
    · next holds =>
      simp only [holds, if_true]
      generalize reply : TemplateDomain.refute template (Solver.valuation run.session) row
        run.search run.value = told at answered ⊢
      cases outcome : told.outcome with
      | error failure => simp [adopt, outcome] at answered
      | ok now =>
        have paid := FiniteDomain.work_refute template (Solver.valuation run.session) row
          run.search run.value now (by rw [reply, outcome])
        rw [reply] at paid
        simp only [adopt, outcome] at answered ⊢
        generalize next : (⟨told.search, told.value, run.session, run.iterations, run.undecided,
          run.transcript ++ told.transcript⟩ : Run ι V σ) = stood at answered ⊢
        cases later : (refuteAll template rest stood).1 with
        | error failure => simp [later, Except.map] at answered
        | ok soon =>
          have owed := ih stood soon later
          rw [later] at answered
          cases answered
          subst next
          simp only [work] at owed paid ⊢
          cases now <;> cases soon <;> simp at owed paid ⊢ <;> omega
    · next fails =>
      simp only [fails, if_false]
      exact ih run changed answered

/-- A query that changes something is paid for. -/
theorem work_query_lt (template : δ) (run begun : Run ι V σ)
    (working : TemplateDomain.hasWork δ V run.search = true)
    (search : begun.search = TemplateDomain.beginRound δ V run.search)
    (answered : (begun.query template).1 = .ok true) :
    (begun.query template).2.work template < begun.work template := by
  unfold query at answered ⊢
  obtain ⟨search_pose, value_pose⟩ := pose_fixes template begun
  generalize begun.pose template = posed at *
  obtain ⟨outcome, stood⟩ := posed
  have same : stood.work template = begun.work template := by
    simp only at search_pose value_pose
    simp only [work, search_pose, value_pose]
  cases outcome with
  | error failure => cases answered
  | ok rows =>
    rw [← same]
    simp only [settle] at answered ⊢
    have confirmed : ∀ (asked : Run ι V σ), asked.search = stood.search → asked.value = stood.value →
        (asked.adopt (TemplateDomain.confirm template asked.search asked.value)).1 = .ok true →
        (asked.adopt (TemplateDomain.confirm template asked.search asked.value)).2.work template <
          stood.work template := by
      intro asked search value held
      have paid := FiniteDomain.work_confirm template asked.search asked.value held
      simpa only [work, adopt, search, value] using paid
    split at answered
    · next none =>
      simp only [none, if_true]
      exact confirmed stood rfl rfl answered
    · next some =>
      simp only [some, Bool.false_eq_true, if_false]
      generalize solved : (stood.assert (someViolated rows)).solve = asked at answered ⊢
      have search_asked : asked.2.search = stood.search := by rw [← solved]; rfl
      have value_asked : asked.2.value = stood.value := by rw [← solved]; rfl
      obtain ⟨answer, asked⟩ := asked
      simp only at search_asked value_asked
      match answer with
      | .error error => cases answered
      | .ok .sat =>
        have paid := work_refuteAll template rows asked true answered
        simp only [work, search_asked, value_asked, Bool.toNat_true] at paid ⊢
        omega
      | .ok .unsat => exact confirmed asked search_asked value_asked answered
      | .ok .unknown =>
        have begins : asked.search = TemplateDomain.beginRound δ V run.search := by
          rw [search_asked, ← search]; exact search_pose
        have paid := FiniteDomain.work_giveUp template run.search asked.value working
          (by simpa only [adopt, begins] using answered)
        simp only [work, adopt, begins, ← search_asked, ← value_asked] at paid ⊢
        exact paid

/-- A round that changes something is paid for. -/
theorem work_round_lt (template : δ) (run : Run ι V σ)
    (working : TemplateDomain.hasWork δ V run.search = true)
    (answered : (run.round template).1 = .ok true) :
    (run.round template).2.work template < run.work template := by
  unfold round iterate at answered ⊢
  generalize begins : ({ run.beginRound δ with
    iterations := (run.beginRound δ).iterations + 1 } : Run ι V σ).push = begun at *
  have begin_le : begun.work template ≤ run.work template := by
    subst begins
    exact FiniteDomain.work_beginRound template run.search run.value
  have paid := work_query_lt template run begun working (by subst begins; rfl)
  generalize begun.query template = asked at *
  obtain ⟨outcome, asked⟩ := asked
  match outcome with
  | .error (.missingRow row) => cases answered
  | .error (.solver error) => cases answered
  | .ok changed =>
    have search_popped := asked.search_pop
    have value_popped := asked.value_pop
    simp only at answered ⊢
    generalize asked.pop = popped at *
    obtain ⟨closed, popped⟩ := popped
    match closed with
    | .error error => cases answered
    | .ok () =>
      cases answered
      have ended := FiniteDomain.work_endRound template popped.search popped.value
      have paid := paid rfl
      simp only at search_popped value_popped
      simp only [work, endRound, search_popped, value_popped] at ended begin_le paid ⊢
      omega

end Work

/-- Rounds as long as there is work and something changes. -/
def fixpoint [FiniteDomain δ ι V] (template : δ) (run : Run ι V σ) :
    Except Failure Unit × Run ι V σ :=
  if working : TemplateDomain.hasWork δ V run.search = true then
    match answered : run.round template with
    | (.error failure, next) => (.error failure, next)
    | (.ok false, next) => (.ok (), next)
    | (.ok true, next) =>
      have : next.work template < run.work template := by
        have paid := work_round_lt template run working (by rw [answered])
        rwa [answered] at paid
      fixpoint template next
  else (.ok (), run)
termination_by run.work template

end Run

end TemplateAnalysis
