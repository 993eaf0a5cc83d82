import TemplateAnalysis.Proofs.Solver.Certified
import TemplateAnalysis.Proofs.Template.Candidates

/-! # Selected candidates hold on every execution

Every execution is followed by a model whose inputs are its start, and in which whatever arrives
over a selected back edge is the store of an earlier step over it. If the start satisfies the
candidates selected on entry and every such store those selected around its loop, then all that is
selected is true in the model before a transition, and so, being stable, after it: when the
execution takes a back edge again, and when it ends.
-/

namespace TemplateAnalysis

namespace Ssa

variable {ssa : Ssa}

/-- A template extended by candidates for further tiers. -/
def extend (ssa : Ssa) (template : PredicateTemplate) (extensions : List (List Expr × Nat)) :
    PredicateTemplate :=
  extensions.foldl (fun template extension =>
    template.addCandidates extension.1 (ssa.observeSummary true) extension.2) template

/-- The template for candidates over the objects of a procedure, extended by candidates for further
tiers. -/
def candidateTemplate (ssa : Ssa) (number : Nat) (limits : Limits) (candidates : List Expr)
    (extensions : List (List Expr × Nat)) : PredicateTemplate :=
  ssa.extend (.ofSummary number limits candidates (ssa.observeSummary true)) extensions

/-- A row for the candidate at a place is selected. -/
def Selects (ssa : Ssa) (template : PredicateTemplate) (value : PredicateValue) (place : Place)
    (candidate : Expr) : Prop :=
  ∃ (i : Nat) (row : TemplateRow), template.rows[i]? = some row ∧ value[i]? = some true ∧
    ssa.IsAt place row ∧ ssa.MadeFor candidate row

theorem number_extend {template : PredicateTemplate} {extensions : List (List Expr × Nat)} :
    (ssa.extend template extensions).number = template.number := by
  induction extensions generalizing template with
  | nil => rfl
  | cons extension rest ih => exact ih

private theorem madeFor_of_mem_candidateRows {candidates : List Expr} {tier : Nat}
    {row : TemplateRow}
    (isRow : row ∈ PredicateTemplate.candidateRows candidates (ssa.observeSummary true) tier) :
    ∃ candidate ∈ candidates, ssa.MadeFor candidate row := by
  obtain ⟨candidate, isCandidate, made⟩ := List.mem_flatMap.mp isRow
  obtain ⟨group, isGroup, made⟩ := List.mem_filterMap.mp made
  exact ⟨candidate, isCandidate, tier, group, isGroup, made⟩

private theorem mem_rows_extend {template : PredicateTemplate}
    {extensions : List (List Expr × Nat)} {row : TemplateRow}
    (isRow : row ∈ (ssa.extend template extensions).rows) :
    row ∈ template.rows ∨ ∃ candidate ∈ extensions.flatMap (·.1), ssa.MadeFor candidate row := by
  induction extensions generalizing template with
  | nil => exact .inl isRow
  | cons extension rest ih =>
    rw [List.flatMap_cons]
    rcases ih isRow with isFirst | ⟨candidate, isCandidate, made⟩
    · rcases List.mem_append.mp isFirst with isOld | isNew
      · exact .inl isOld
      · obtain ⟨candidate, isCandidate, made⟩ := madeFor_of_mem_candidateRows isNew
        exact .inr ⟨candidate, List.mem_append_left _ isCandidate, made⟩
    · exact .inr ⟨candidate, List.mem_append_right _ isCandidate, made⟩

theorem number_candidateTemplate {number : Nat} {limits : Limits} {candidates : List Expr}
    {extensions : List (List Expr × Nat)} :
    (ssa.candidateTemplate number limits candidates extensions).number = number :=
  number_extend

/-- Every row of the template was made for one of the candidates. -/
theorem exists_candidate {number : Nat} {limits : Limits} {candidates : List Expr}
    {extensions : List (List Expr × Nat)} {row : TemplateRow}
    (isRow : row ∈ (ssa.candidateTemplate number limits candidates extensions).rows) :
    ∃ candidate ∈ candidates ++ extensions.flatMap (·.1), ssa.MadeFor candidate row := by
  rcases mem_rows_extend isRow with isFirst | ⟨candidate, isCandidate, made⟩
  · obtain ⟨candidate, isCandidate, made⟩ := madeFor_of_mem_candidateRows isFirst
    exact ⟨candidate, List.mem_append_left _ isCandidate, made⟩
  · exact ⟨candidate, List.mem_append_right _ isCandidate, made⟩

end Ssa

namespace Frame

/-- A stable selection of rows made for conditions over the objects of a procedure. -/
structure Selection (frame : Frame) (params : List Symbol) (candidates : List Expr)
    (template : PredicateTemplate) (value : PredicateValue) : Prop where
  isParam : ∀ param ∈ params, param ∈ frame.objects
  conditions : ∀ candidate ∈ candidates, candidate.isCondition = true ∧ candidate.hasNondet = false
  rows : ∀ row ∈ template.rows, ∃ candidate ∈ candidates,
    (frame.complete params).MadeFor candidate row
  stable : template.Stable frame.loaded.flatten value

/-- The inputs of a model are the values at the start, and what arrives over a selected back edge is
a store that satisfies the candidates selected around the loop. -/
structure Sustains (frame : Frame) (params : List Symbol) (candidates : List Expr)
    (template : PredicateTemplate) (value : PredicateValue) (start m : Assignment) : Prop where
  inputs : ∀ object ∈ frame.objects, m (Definition.input.version object) = start object
  arrives : ∀ loop : Loop, loop.backEdge ∈ frame.flow.backEdges loop.head →
    m.truth (loopSelect loop.backEdge) = true → ∃ store : Assignment,
      (∀ object ∈ frame.objects, m (loopBack object loop.backEdge) = store object) ∧
      ∀ candidate ∈ candidates,
        (frame.complete params).Selects template value (.around loop) candidate →
          store.holds candidate = true

namespace Proper

variable {frame : Frame} {table : SymbolTable} (proper : frame.Proper table)
  {params : List Symbol} {candidates : List Expr} {template : PredicateTemplate}
  {value : PredicateValue} (selection : frame.Selection params candidates template value)
  {start : Assignment}
  (entry : ∀ candidate ∈ candidates,
    (frame.complete params).Selects template value .entry candidate → start.holds candidate = true)
include proper selection entry

/-- What is selected is true before a transition. -/
theorem assumes_of_sustains {m : Assignment}
    (sustains : frame.Sustains params candidates template value start m) :
    template.Assumes (fun i => value[i]? = some true) m := by
  intro i row isRow selected isAssumed
  obtain ⟨candidate, isCandidate, made⟩ := selection.rows row (List.mem_of_getElem? isRow)
  obtain ⟨condition, closed⟩ := selection.conditions candidate isCandidate
  obtain ⟨place, isPlace, isAt, -⟩ := proper.madeFor_cases selection.isParam made
  have selects : (frame.complete params).Selects template value place candidate :=
    ⟨i, row, isRow, selected, isAt, made⟩
  cases place with
  | entry =>
    rw [proper.holds_before selection.isParam condition closed made isAt sustains.inputs,
      entry candidate isCandidate selects, Bool.or_true]
  | exit =>
    rw [TemplateRow.isAssumed, isAt.role] at isAssumed
    cases isAssumed
  | around loop =>
    cases select : m.truth (loopSelect loop.backEdge) with
    | false =>
      -- a back edge that is not selected asks for nothing
      have values : ∀ object ∈ frame.objects, m (loopBack object loop.backEdge) =
          (⟨fun s => m (loopBack s loop.backEdge), fun s => m.sorted _⟩ : Assignment) object :=
        fun _ _ => rfl
      rw [proper.holds_before selection.isParam condition closed made isAt values]
      change (!m.holds (frame.loopGuards loop true).1 || _) = true
      rw [proper.holds_arriving isPlace, select, Bool.and_false]
      rfl
    | true =>
      obtain ⟨store, values, satisfied⟩ := sustains.arrives loop isPlace select
      rw [proper.holds_before selection.isParam condition closed made isAt values,
        satisfied candidate isCandidate selects, Bool.or_true]

/-- What is selected at a place is true after a transition there. -/
theorem holds_of_sustains {m store : Assignment} (solves : m.Solves frame.equalities)
    (sustains : frame.Sustains params candidates template value start m) {place : Place}
    (checked : place ≠ .entry) (guard : m.holds (frame.guards place).2 = true)
    (values : ∀ object ∈ frame.objects, m (frame.after object place) = store object)
    {candidate : Expr} (isCandidate : candidate ∈ candidates)
    (selects : (frame.complete params).Selects template value place candidate) :
    store.holds candidate = true := by
  obtain ⟨i, row, isRow, selected, isAt, made⟩ := selects
  obtain ⟨condition, closed⟩ := selection.conditions candidate isCandidate
  have isChecked : row.isChecked = true := by
    rw [TemplateRow.isChecked, isAt.role]
    cases place with
    | entry => exact absurd rfl checked
    | exit => rfl
    | around loop => rfl
  have assumes := proper.assumes_of_sustains selection entry sustains
  have after := selection.stable m (satisfies_loaded.mpr solves) assumes i row isRow selected
    isChecked
  rwa [proper.holds_after selection.isParam condition closed made isAt values, guard] at after

omit selection entry in
/-- The model can make any choices of the next step. -/
theorem sustains_choose {m : Assignment} {configuration : Configuration}
    (follows : frame.Follows m configuration)
    (sustains : frame.Sustains params candidates template value start m) (c : Choices) :
    ∃ n, frame.Follows n configuration ∧ frame.Chooses n configuration.loc c ∧
      frame.Sustains params candidates template value start n := by
  obtain ⟨n, follows', chooses, agree, noBack⟩ := proper.exists_choose follows c
  refine ⟨n, follows', chooses, fun object isObject => ?_, fun loop isBack selected => ?_⟩
  · rw [proper.input_of_agree agree (by omega) isObject]
    exact sustains.inputs object isObject
  · have upTo : loop.head ≤ configuration.loc := by
      rcases Nat.lt_or_ge configuration.loc loop.head with later | upTo
      · rw [noBack loop.head later _ isBack] at selected
        cases selected
      · exact upTo
    obtain ⟨select, same⟩ := proper.selected_of_agree agree (by omega) isBack selected
    obtain ⟨store, arrives, satisfied⟩ := sustains.arrives loop isBack select
    exact ⟨store, fun object isObject => (same object isObject).trans (arrives object isObject),
      satisfied⟩

/-- A step over a back edge leads to a store that satisfies what is selected around its loop. -/
theorem holds_back {m : Assignment} {c : Choices} {source target : Configuration}
    (follows : frame.Follows m source)
    (sustains : frame.Sustains params candidates template value start m)
    (step : Step frame.body table c source target) {candidate : Expr}
    (isCandidate : candidate ∈ candidates)
    (selects : (frame.complete params).Selects template value
      (.around ⟨target.loc, source.loc⟩) candidate) :
    target.store.holds candidate = true := by
  obtain ⟨n, follows, chooses, sustains⟩ := proper.sustains_choose follows sustains c
  have checked : Place.around ⟨target.loc, source.loc⟩ ≠ .entry := fun same => by cases same
  refine proper.holds_of_sustains selection entry follows.solves sustains checked ?_ ?_ isCandidate
    selects
  · exact (proper.takes_step follows.toArrives chooses step step.edge).mpr rfl
  · exact fun object isObject => proper.store_step follows.toArrives chooses step isObject

/-- Every execution is followed by a model that sustains what is selected. -/
theorem exists_sustains {permitted : Nat → Choices → Prop} {configuration : Configuration}
    (reaches : Reaches frame.body table permitted start configuration) :
    ∃ m, frame.Follows m configuration ∧
      frame.Sustains params candidates template value start m := by
  induction reaches with
  | entry =>
    obtain ⟨m, follows, inputs, noBack⟩ := proper.exists_entry start
    refine ⟨m, follows, inputs, fun loop isBack selected => ?_⟩
    rw [noBack] at selected
    cases selected
  | @step source target c run allowed taken ih =>
    obtain ⟨m, follows, sustains⟩ := ih
    obtain ⟨n, follows', agree, selects⟩ := proper.exists_step follows taken
    refine ⟨n, follows', fun object isObject => ?_, fun loop isBack selected => ?_⟩
    · rw [proper.input_of_agree agree (by omega) isObject]
      exact sustains.inputs object isObject
    · rcases selects loop.head loop.backEdge isBack selected with
        ⟨select, same⟩ | ⟨isSource, closes, arrives⟩
      · obtain ⟨store, arrives, satisfied⟩ := sustains.arrives loop isBack select
        exact ⟨store, fun object isObject => (same object isObject).trans (arrives object isObject),
          satisfied⟩
      · -- the back edge of this very step
        obtain ⟨head, backEdge⟩ := loop
        obtain rfl : backEdge = source.loc := isSource
        obtain rfl : head = target.loc := by
          rw [proper.flow_eq] at isBack
          exact Flow.head_unique isBack (Flow.mem_backEdges.mpr ⟨taken.edge, closes⟩)
        exact ⟨target.store, arrives, fun candidate isCandidate =>
          proper.holds_back selection entry follows sustains taken isCandidate⟩

/-- An execution that arrives at the end has a store that satisfies what is selected on exit. -/
theorem holds_exit {m store : Assignment}
    (follows : frame.Follows m ⟨frame.body.length - 1, store⟩)
    (sustains : frame.Sustains params candidates template value start m) {candidate : Expr}
    (isCandidate : candidate ∈ candidates)
    (selects : (frame.complete params).Selects template value .exit candidate) :
    store.holds candidate = true := by
  have checked : Place.exit ≠ .entry := fun same => by cases same
  exact proper.holds_of_sustains selection entry follows.solves sustains checked follows.reached
    follows.reads isCandidate selects

end Proper

end Frame

section Analyze

variable {φ σ : Type} [Solver σ] [SessionSource φ σ]

/-- If the predicate analysis of a well-formed procedure has a result, whatever its status, then on
every execution whose start satisfies the candidates selected on entry, the store satisfies the
candidates selected around a loop each time its back edge is taken, and those selected on exit each
time the last location is reached. The session must only be right about `unsat`, and the candidates
must leave no value open. -/
theorem holds_of_selects {store ensured : Store φ σ} {name : String} {procedure : Procedure}
    {table : SymbolTable} {ssa : Ssa} (absent : store.get? name = none)
    (unopened : NameMap.find? store.sessions name = none)
    (ensures : store.ensure name procedure table = .ok (ssa, ensured))
    (wellFormed : procedure.WellFormed table) {number : Nat} {limits : Limits}
    {candidates : List Expr} {extensions : List (List Expr × Nat)}
    (conditions : ∀ candidate ∈ candidates ++ extensions.flatMap (·.1),
      candidate.isCondition = true ∧ candidate.hasNondet = false)
    {search : PredicateSearch} {symbols : SymbolSet} {result : AnalysisResult PredicateValue}
    (answered : (analyze ensured name (Domain.start
      (ssa.candidateTemplate number limits candidates extensions) search) symbols).outcome =
        .ok result)
    (unsat : Solver.UnsatSound ensured.nextSession) {start : Assignment}
    (entry : ∀ candidate ∈ candidates ++ extensions.flatMap (·.1),
      ssa.Selects (ssa.candidateTemplate number limits candidates extensions) result.value .entry
        candidate → start.holds candidate = true) :
    (∀ source target c, Reaches procedure.body table anyChoices start source →
      Step procedure.body table c source target → target.loc ≤ source.loc →
      ∀ candidate ∈ candidates ++ extensions.flatMap (·.1),
        ssa.Selects (ssa.candidateTemplate number limits candidates extensions) result.value
          (.around ⟨target.loc, source.loc⟩) candidate → target.store.holds candidate = true) ∧
    ∀ final, Reaches procedure.body table anyChoices start ⟨procedure.body.length - 1, final⟩ →
      ∀ candidate ∈ candidates ++ extensions.flatMap (·.1),
        ssa.Selects (ssa.candidateTemplate number limits candidates extensions) result.value
          .exit candidate → final.holds candidate = true := by
  obtain ⟨frame, proper, body, isParam, rfl, begun, last, status, larger, holds, explored, value,
    -⟩ := explore_of_ensured absent unopened ensures wellFormed answered
  have rowTerms : ∀ row ∈ ((frame.complete procedure.params).candidateTemplate number limits
      candidates extensions).rows,
      PredicateTemplate.RowOver (Run.NoLiteral number) row := by
    intro row isRow
    obtain ⟨candidate, isCandidate, made⟩ := Ssa.exists_candidate isRow
    obtain ⟨condition, closed⟩ := conditions candidate isCandidate
    exact (proper.row_over isParam condition closed made).mono (Frame.Own.noLiteral number)
  have selection : frame.Selection procedure.params (candidates ++ extensions.flatMap (·.1))
      ((frame.complete procedure.params).candidateTemplate number limits candidates extensions)
      result.value := by
    refine ⟨isParam, conditions, fun row => Ssa.exists_candidate, ?_⟩
    rw [value]
    refine PredicateTemplate.stable_of_explore _ unsat ?_ ?_ holds explored
    all_goals rw [Ssa.number_candidateTemplate]
    · exact proper.loaded_terms number
    · exact rowTerms
  rw [← body]
  constructor
  · intro source target c reaches step _ candidate
    obtain ⟨m, follows, sustains⟩ := proper.exists_sustains selection entry reaches
    exact proper.holds_back selection entry follows sustains step
  · intro final reaches candidate
    obtain ⟨m, follows, sustains⟩ := proper.exists_sustains selection entry reaches
    exact proper.holds_exit selection entry follows sustains

end Analyze

/-- Returns one. -/
def returningOne : Procedure where
  params := []
  body := [.ret (some (.int 1)), .endFunction]

namespace ReturningOne

/-- What is returned is an integer that is left open. This is true in no store. -/
def openResult : Expr := .equation (.var ⟨returnValue, .int⟩) (.nondet .int)

/-- A store whose sessions know that nothing violates what never has a value. -/
def guarded : Store Certificates CertifiedSession where
  source := {
    refutations := [.ofUnvalued (Name.violation 0 0).bool (Name.guard 1).bool
      (.equation (.var (Name.version returnValue 0).int) (.nondet .int)) fun _ => rfl] }

/-- The predicate analysis of the candidate. -/
def predicates (ssa : Ssa) (ensured : Store Certificates CertifiedSession) :
    Except AnalysisError (AnalysisResult PredicateValue) :=
  (analyze ensured "one" (Domain.start (ssa.candidateTemplate 0 {} [openResult] [])
    ({} : PredicateSearch)) []).outcome

end ReturningOne

/-- A candidate with an open value is selected on exit, and nothing on entry, although the session
is right about `unsat`; but it is true at the end of no execution. -/
theorem selects_unvalued_on_exit : ∃ ssa ensured result,
    ReturningOne.guarded.ensure "one" returningOne [] = .ok (ssa, ensured) ∧
    returningOne.WellFormed [] ∧ ReturningOne.openResult.isCondition = true ∧
    Solver.UnsatSound ensured.nextSession ∧
    ReturningOne.predicates ssa ensured = .ok result ∧ result.status = .converged ∧
    (∀ candidate, ¬ ssa.Selects (ssa.candidateTemplate 0 {} [ReturningOne.openResult] [])
      result.value .entry candidate) ∧
    ssa.Selects (ssa.candidateTemplate 0 {} [ReturningOne.openResult] []) result.value .exit
      ReturningOne.openResult ∧
    ∀ start : Assignment, ∃ final,
      Reaches returningOne.body [] anyChoices start ⟨1, final⟩ ∧
      final.holds ReturningOne.openResult = false := by
  have wellFormed : returningOne.WellFormed [] := by
    refine ⟨?_, ?_, ?_⟩ <;> decide
  obtain ⟨ssa, ensured, ensures, opens, outputs, exit⟩ : ∃ ssa ensured,
      ReturningOne.guarded.ensure "one" returningOne [] = .ok (ssa, ensured) ∧
      ensured.nextSession = ⟨ReturningOne.guarded.source, [[]], []⟩ ∧
      (ssa.candidateTemplate 0 {} [ReturningOne.openResult] []).rows.map (·.role) = [.output] ∧
      ssa.Selects (ssa.candidateTemplate 0 {} [ReturningOne.openResult] []) [true] .exit
        ReturningOne.openResult := by
    refine ⟨_, _, rfl, rfl, rfl, ?_⟩
    exact ⟨0, _, rfl, rfl, ⟨rfl, rfl, rfl⟩, 0, _, List.mem_of_getElem? (i := 0) rfl, rfl⟩
  have evaluates : (ReturningOne.guarded.ensure "one" returningOne []).toOption.any
      (fun (ssa, ensured) => (ReturningOne.predicates ssa ensured).toOption.any fun result =>
        result.status == .converged && result.value == [true]) = true := by
    decide +kernel
  rw [ensures] at evaluates
  obtain ⟨result, answered, passes⟩ := exists_ok_of_any (x := ReturningOne.predicates ssa ensured)
    evaluates
  obtain ⟨converged, value⟩ : result.status = .converged ∧ result.value = [true] := by
    simpa using passes
  rw [← value] at exit
  refine ⟨ssa, ensured, result, ensures, wellFormed, by decide, opens ▸ CertifiedSession.unsatSound,
    answered, converged, ?_, exit, fun start => ?_⟩
  · rintro candidate ⟨i, row, isRow, -, isAt, -⟩
    have output : row.role ∈ [Role.output] :=
      outputs ▸ List.mem_map_of_mem (List.mem_of_getElem? isRow)
    rw [isAt.role] at output
    exact absurd output (by decide)
  · exact ⟨_, .step (c := default) .entry trivial (.perform rfl rfl), rfl⟩

namespace Countdown

/-- The number is not negative. -/
def notNegative : Expr := .cmp .ge (.var ⟨"x", .int⟩) (.int 0)

/-- The number is at most ten. -/
def atMostTen : Expr := .cmp .le (.var ⟨"x", .int⟩) (.int 10)

/-- The countdown is left with a negative number that arrived over the back edge. -/
def leaving : Model :=
  [((Name.input "x").int, .int 5), ((Name.loopSelect 2).bool, .bool true),
    ((Name.loopBack "x" 2).int, .int (-1)), ((Name.phi "x" 0).int, .int (-1)),
    ((Name.guard 0).bool, .bool true), ((Name.cond 0).bool, .bool true),
    ((Name.guard 1).bool, .bool false), ((Name.version "x" 1).int, .int (-2)),
    ((Name.guard 2).bool, .bool false), ((Name.guard 3).bool, .bool true),
    ((Name.violation 0 1).bool, .bool true)]

/-- The countdown takes its back edge with a negative number. -/
def negativeAround : List Expr := formulas ++ [
  .equation (.var (Name.violation 0 2).bool) (.junction .and [.var (Name.guard 2).bool,
    .negation (.cmp .ge (.var (Name.version "x" 1).int) (.int 0))]),
  .var (Name.violation 0 2).bool]

/-- The countdown is left with a negative number, although neither the number on entry nor the one
that arrives over the back edge is negative, and whatever else is assumed. -/
def negativeOnExit (others : List Expr) : List Expr := formulas ++ [
  .junction .and (
    .implication (.var (Name.guard 0).bool) (.cmp .ge (.var (Name.input "x").int) (.int 0)) ::
    .implication (.junction .and [.var (Name.guard 0).bool, .var (Name.loopSelect 2).bool])
      (.cmp .ge (.var (Name.loopBack "x" 2).int) (.int 0)) :: others),
  .equation (.var (Name.violation 0 1).bool) (.junction .and [.var (Name.guard 3).bool,
    .negation (.cmp .ge (.var (Name.phi "x" 0).int) (.int 0))]),
  .var (Name.violation 0 1).bool]

theorem not_negativeAround (m : Assignment) : ¬ m.Satisfies negativeAround := by
  intro satisfies
  simp only [Assignment.Satisfies, negativeAround, List.forall_mem_append, List.forall_mem_cons]
    at satisfies
  obtain ⟨held, meaning, violated, -⟩ := satisfies
  obtain ⟨input, back, select, head, pass⟩ := exists_pass held
  simp only [Expr.eval, Expr.evalJunction, Assignment.valuation_apply, pass.descends, pass.passes,
    Option.bind_some, Value.toBool?, Value.toInt?, CmpOp.apply, Connective.neutral,
    Option.some.injEq] at meaning violated
  by_cases low : head ≤ 0
  · simp [violated, low] at meaning
  · simp [violated, low, (pred_of_positive low).2.1] at meaning

theorem not_negativeOnExit (others : List Expr) (m : Assignment) :
    ¬ m.Satisfies (negativeOnExit others) := by
  intro satisfies
  simp only [Assignment.Satisfies, negativeOnExit, List.forall_mem_append, List.forall_mem_cons]
    at satisfies
  obtain ⟨held, assumed, meaning, violated, -⟩ := satisfies
  obtain ⟨input, back, select, head, pass⟩ := exists_pass held
  simp only [Expr.eval, Expr.evalJunction, Assignment.valuation_apply, pass.isInput, pass.isBack,
    pass.isSelect, pass.isHead, pass.enters, pass.leaves, Option.bind_some, Value.toBool?,
    Value.toInt?, CmpOp.apply, Connective.neutral, Option.some.injEq] at assumed meaning violated
  -- the number at the head is one of the two that are assumed not to be negative
  have first : 0 ≤ input := by
    cases known : decide (0 ≤ input) with
    | true => exact of_decide_eq_true known
    | false =>
      rw [known] at assumed
      simp at assumed
  have second : select = true → 0 ≤ back := by
    rintro rfl
    cases known : decide (0 ≤ back) with
    | true => exact of_decide_eq_true known
    | false =>
      rw [known] at assumed
      simp [first] at assumed
  have bounded : 0 ≤ head := by
    rw [pass.merges]
    split
    · next selected => exact second selected
    · exact first
  by_cases low : head ≤ 0
  · simp [violated, low, bounded] at meaning
  · simp [violated, low] at meaning

/-- A store whose sessions know when the countdown has a negative number. -/
def guarded : Store Certificates CertifiedSession where
  source := {
    refutations := [⟨negativeAround, not_negativeAround⟩, ⟨_, not_negativeOnExit []⟩,
      ⟨_, not_negativeOnExit [.implication (.var (Name.guard 0).bool)
        (.cmp .le (.var (Name.input "x").int) (.int 10))]⟩]
    models := [leaving] }

/-- The template of the candidates, one of them on a higher level. -/
def template (ssa : Ssa) : PredicateTemplate :=
  ssa.candidateTemplate 0 { predicateLevel := 1 } [notNegative] [([atMostTen], 1)]

/-- The predicate analysis of the countdown. -/
def predicates (ssa : Ssa) (ensured : Store Certificates CertifiedSession) :
    Except AnalysisError (AnalysisResult PredicateValue) :=
  (analyze ensured "countdown" (Domain.start (template ssa) ({} : PredicateSearch)) []).outcome

end Countdown

/-- Two queries about the countdown stay open, and still a number that is neither negative nor above
ten at the start is not negative whenever the back edge is taken, nor at the end. -/
theorem not_negative_in_countdown : ∃ ssa ensured result,
    Countdown.guarded.ensure "countdown" countdown Countdown.table = .ok (ssa, ensured) ∧
    Countdown.predicates ssa ensured = .ok result ∧ result.status = .unknown ∧
    ∀ start : Assignment, start.holds Countdown.notNegative = true →
      start.holds Countdown.atMostTen = true →
      (∀ source target c, Reaches countdown.body Countdown.table anyChoices start source →
        Step countdown.body Countdown.table c source target → source.loc = 2 → target.loc = 0 →
          target.store.holds Countdown.notNegative = true) ∧
      ∀ final, Reaches countdown.body Countdown.table anyChoices start ⟨3, final⟩ →
        final.holds Countdown.notNegative = true := by
  have wellFormed : countdown.WellFormed Countdown.table := by
    refine ⟨?_, ?_, ?_⟩ <;> decide
  obtain ⟨ssa, ensured, ensures, opens, around, exit⟩ : ∃ ssa ensured,
      Countdown.guarded.ensure "countdown" countdown Countdown.table = .ok (ssa, ensured) ∧
      ensured.nextSession = ⟨Countdown.guarded.source, [[]], []⟩ ∧
      ssa.Selects (Countdown.template ssa) [true, true, true, true, false, false] (.around ⟨0, 2⟩)
        Countdown.notNegative ∧
      ssa.Selects (Countdown.template ssa) [true, true, true, true, false, false] .exit
        Countdown.notNegative := by
    refine ⟨_, _, rfl, rfl, ?_, ?_⟩
    · exact ⟨2, _, rfl, rfl, ⟨rfl, rfl, rfl⟩, 0, _, List.mem_of_getElem? (i := 2) rfl, rfl⟩
    · exact ⟨1, _, rfl, rfl, ⟨rfl, rfl, rfl⟩, 0, _, List.mem_of_getElem? (i := 1) rfl, rfl⟩
  have evaluates : (Countdown.guarded.ensure "countdown" countdown Countdown.table).toOption.any
      (fun (ssa, ensured) => (Countdown.predicates ssa ensured).toOption.any fun result =>
        result.status == .unknown && result.value == [true, true, true, true, false, false]) =
      true := by
    decide +kernel
  rw [ensures] at evaluates
  obtain ⟨result, answered, passes⟩ := exists_ok_of_any (x := Countdown.predicates ssa ensured)
    evaluates
  obtain ⟨unknown, value⟩ : result.status = .unknown ∧
      result.value = [true, true, true, true, false, false] := by
    simpa using passes
  refine ⟨ssa, ensured, result, ensures, answered, unknown, fun start first second => ?_⟩
  rw [← value] at around exit
  have isCandidate : Countdown.notNegative ∈ [Countdown.notNegative, Countdown.atMostTen] :=
    List.mem_cons_self
  have entry : ∀ candidate ∈ [Countdown.notNegative, Countdown.atMostTen],
      ssa.Selects (Countdown.template ssa) result.value .entry candidate →
        start.holds candidate = true := by
    intro candidate listed _
    rcases (by simpa using listed : candidate = Countdown.notNegative ∨
      candidate = Countdown.atMostTen) with rfl | rfl
    · exact first
    · exact second
  obtain ⟨atLoop, atEnd⟩ := holds_of_selects rfl rfl ensures wellFormed (by decide) answered
    (opens ▸ CertifiedSession.unsatSound) entry
  constructor
  · intro source target c reaches step isBack isHead
    refine atLoop source target c reaches step (by omega) _ isCandidate ?_
    rw [isBack, isHead]
    exact around
  · exact fun final reaches => atEnd final reaches _ isCandidate exit

end TemplateAnalysis
