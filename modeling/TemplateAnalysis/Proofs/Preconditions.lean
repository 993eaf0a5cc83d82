import Mathlib.Logic.Relation
import TemplateAnalysis.Proofs.Solver.Certified
import TemplateAnalysis.Proofs.Template.Reversal

/-! # Candidates selected backwards hold where an execution comes from

Backwards, what is selected on exit is assumed of the end of an execution, and what is selected on
entry is concluded for its start. The argument goes from the end of the execution to its start. Up
to its next step over a back edge an execution is followed by a model in which no other back edge is
taken and, unless the execution ends before, the exit is not reached. So of all that is assumed
backwards, only what is selected around the loop of that step, or on exit, applies, and it is known
of the store there. Since the selection is stable, the store that arrived over the back edge before,
or the start, satisfies what is selected there.
-/

namespace TemplateAnalysis

/-- An execution goes on from one configuration to another. -/
def Proceeds (body : List Instruction) (table : SymbolTable) :
    Configuration → Configuration → Prop :=
  Relation.ReflTransGen fun source target => ∃ c, Step body table c source target

theorem Reaches.proceeds {body : List Instruction} {table : SymbolTable}
    {permitted : Nat → Choices → Prop} {start : Assignment} {configuration : Configuration}
    (reaches : Reaches body table permitted start configuration) :
    Proceeds body table ⟨0, start⟩ configuration := by
  induction reaches with
  | entry => exact .refl
  | step _ _ taken ih => exact ih.tail ⟨_, taken⟩

/-- A row for the candidate, made backwards, is selected at a place. -/
def Ssa.SelectsBackward (ssa : Ssa) (template : PredicateTemplate) (value : PredicateValue)
    (place : Place) (candidate : Expr) : Prop :=
  ∃ (i : Nat) (row : TemplateRow), template.rows[i]? = some row ∧ value[i]? = some true ∧
    ssa.IsBackwardAt place row ∧ ssa.MadeBackward candidate row

/-- The template for candidates over the objects of a procedure, backwards. -/
def Ssa.backwardTemplate (ssa : Ssa) (number : Nat) (limits : Limits) (candidates : List Expr) :
    PredicateTemplate :=
  .ofSummary number limits candidates (ssa.observeSummary false)

theorem Ssa.exists_backward_candidate {ssa : Ssa} {number : Nat} {limits : Limits}
    {candidates : List Expr} {row : TemplateRow}
    (isRow : row ∈ (ssa.backwardTemplate number limits candidates).rows) :
    ∃ candidate ∈ candidates, ssa.MadeBackward candidate row := by
  obtain ⟨candidate, isCandidate, made⟩ := List.mem_flatMap.mp isRow
  obtain ⟨group, isGroup, made⟩ := List.mem_filterMap.mp made
  exact ⟨candidate, isCandidate, 0, group, isGroup, made⟩

namespace Frame

/-- No back edge is taken before a location. -/
def NoReturn (frame : Frame) (m : Assignment) (loc : Nat) : Prop :=
  ∀ head, ∀ b ∈ frame.flow.backEdges head, b < loc → frame.takes m b head = false

/-- A stable selection of rows made backwards for conditions over the objects of a procedure. -/
structure BackwardSelection (frame : Frame) (params : List Symbol) (candidates : List Expr)
    (template : PredicateTemplate) (value : PredicateValue) : Prop where
  isParam : ∀ param ∈ params, param ∈ frame.objects
  conditions : ∀ candidate ∈ candidates, candidate.isCondition = true ∧ candidate.hasNondet = false
  rows : ∀ row ∈ template.rows, ∃ candidate ∈ candidates,
    (frame.complete params).MadeBackward candidate row
  stable : template.Stable frame.loaded.flatten value

/-- The store satisfies the candidates selected backwards at a place. -/
def Satisfied (frame : Frame) (params : List Symbol) (candidates : List Expr)
    (template : PredicateTemplate) (value : PredicateValue) (place : Place) (store : Assignment) :
    Prop :=
  ∀ candidate ∈ candidates,
    (frame.complete params).SelectsBackward template value place candidate →
      store.holds candidate = true

/-- Where a model ends, on exit or over a back edge, its store satisfies what is selected. -/
structure Concludes (frame : Frame) (params : List Symbol) (candidates : List Expr)
    (template : PredicateTemplate) (value : PredicateValue) (m : Assignment) : Prop where
  solves : m.Solves frame.equalities
  exits : m.truth frame.exitGuard = true → ∃ store : Assignment,
    (∀ object ∈ frame.objects, m (frame.after object .exit) = store object) ∧
      frame.Satisfied params candidates template value .exit store
  leaves : ∀ loop : Loop, loop.backEdge ∈ frame.flow.backEdges loop.head →
    frame.takes m loop.backEdge loop.head = true → ∃ store : Assignment,
      (∀ object ∈ frame.objects, m (frame.after object (.around loop)) = store object) ∧
        frame.Satisfied params candidates template value (.around loop) store

/-- Every model that follows an execution to a configuration, without a back edge taken before, can
be continued to one that ends with a store that satisfies what is selected. -/
def Concluded (frame : Frame) (params : List Symbol) (candidates : List Expr)
    (template : PredicateTemplate) (value : PredicateValue) (configuration : Configuration) :
    Prop :=
  ∀ m, frame.Follows m configuration → frame.NoReturn m configuration.loc →
    ∃ n, frame.AgreeBelow (2 * configuration.loc + 2) m n ∧
      frame.Concludes params candidates template value n

namespace Proper

variable {frame : Frame} {table : SymbolTable} (proper : frame.Proper table)
include proper

/-- What is taken before a location does not change with symbols of later locations. -/
theorem noReturn_of_agree {m n : Assignment} {loc bound : Nat} (covers : 2 * loc < bound)
    (agree : frame.AgreeBelow bound m n) (noReturn : frame.NoReturn m loc) :
    frame.NoReturn n loc := by
  intro head b isBack before
  rw [agree.takes_eq (proper.mem_backEdges.mp isBack).1 (by omega)]
  exact noReturn head b isBack before

section Steps

variable {m : Assignment} {c : Choices} {source target : Configuration}
  (follows : frame.Follows m source) (chooses : frame.Chooses m source.loc c)
  (noBack : ∀ head, source.loc < head → ∀ b ∈ frame.flow.backEdges head,
    m.truth (loopSelect b) = false)
  (step : Step frame.body table c source target) (noReturn : frame.NoReturn m source.loc)
include follows chooses noBack step noReturn

/-- Of the back edges up to the target of a step, or of all if it is one itself, only the one of the
step is taken. -/
theorem eq_of_takes {loop : Loop} (isBack : loop.backEdge ∈ frame.flow.backEdges loop.head)
    (before : target.loc ≤ source.loc ∨ loop.backEdge < target.loc)
    (taken : frame.takes m loop.backEdge loop.head = true) : loop = ⟨target.loc, source.loc⟩ := by
  obtain ⟨head, b⟩ := loop
  have inside := (proper.back_edge_inside isBack).2
  rcases Nat.lt_or_ge b source.loc with earlier | later
  · rw [noReturn head b isBack earlier] at taken
    cases taken
  · by_contra apart
    rw [proper.not_taken follows.toArrives chooses step (follows.onward noBack inside)
      (proper.mem_backEdges.mp isBack).1 later (Nat.le_refl _) before
      fun same => apart (by cases same; rfl)] at taken
    cases taken

/-- A forward step takes no back edge. -/
theorem noReturn_forward (ahead : source.loc < target.loc) : frame.NoReturn m target.loc := by
  intro head b isBack before
  refine Bool.eq_false_iff.mpr fun taken => ?_
  have closes := (proper.back_edge_inside isBack).1
  have same : (⟨head, b⟩ : Loop) = ⟨target.loc, source.loc⟩ :=
    proper.eq_of_takes follows chooses noBack step noReturn isBack (.inr before) taken
  cases same
  omega

end Steps

/-- Every execution is followed by a model that takes no back edge before. -/
theorem exists_follows_noReturn {permitted : Nat → Choices → Prop} {start : Assignment}
    {configuration : Configuration}
    (reaches : Reaches frame.body table permitted start configuration) :
    ∃ m, frame.Follows m configuration ∧ frame.NoReturn m configuration.loc := by
  induction reaches with
  | entry =>
    obtain ⟨m, follows, -⟩ := proper.exists_entry start
    exact ⟨m, follows, fun _ _ _ before => absurd before (Nat.not_lt_zero _)⟩
  | @step source target c _ _ step ih =>
    obtain ⟨m, follows, noReturn⟩ := ih
    obtain ⟨middle, follows, chooses, agree, noBack⟩ := proper.exists_choose follows c
    have noReturn := proper.noReturn_of_agree (by omega) agree noReturn
    rcases Nat.lt_or_ge source.loc target.loc with ahead | closes
    · exact ⟨middle, proper.follows_forward follows chooses step ahead noBack,
        proper.noReturn_forward follows chooses noBack step noReturn ahead⟩
    · obtain ⟨n, follows', agree, -⟩ := proper.exists_back_step follows chooses step closes
      exact ⟨n, follows', proper.noReturn_of_agree (by omega) agree fun head b isBack before =>
        noReturn head b isBack (by omega)⟩

variable {params : List Symbol} {candidates : List Expr} {template : PredicateTemplate}
  {value : PredicateValue} (selection : frame.BackwardSelection params candidates template value)
include selection

/-- Where a model ends with a store that satisfies what is selected, all that is selected is true
before a transition. -/
theorem assumes_of_concludes {m : Assignment}
    (concludes : frame.Concludes params candidates template value m) :
    template.Assumes (fun i => value[i]? = some true) m := by
  intro i row isRow selected isAssumed
  obtain ⟨candidate, isCandidate, made⟩ := selection.rows row (List.mem_of_getElem? isRow)
  obtain ⟨condition, closed⟩ := selection.conditions candidate isCandidate
  obtain ⟨place, isPlace, isAt⟩ := proper.exists_backwardAt selection.isParam made
  have selects : (frame.complete params).SelectsBackward template value place candidate :=
    ⟨i, row, isRow, selected, isAt, made⟩
  -- a place that is not left asks for nothing
  have vacuous : m.holds (frame.guards place).2 = false →
      m.holds (PredicateTemplate.statementBefore row) = true := by
    intro notLeft
    have terms := proper.backwardRow_over selection.isParam made condition closed
    refine PredicateTemplate.holds_statementBefore_of_guard terms ?_
    rw [isAt.preGuard, backwardGuards_eq]
    exact notLeft
  have known : ∀ store : Assignment,
      (∀ object ∈ frame.objects, m (frame.after object place) = store object) →
      frame.Satisfied params candidates template value place store →
      m.holds (PredicateTemplate.statementBefore row) = true := by
    intro store values satisfied
    rw [proper.backward_holds_before selection.isParam made condition closed isAt values,
      satisfied candidate isCandidate selects, Bool.or_true]
  cases place with
  | entry =>
    rw [TemplateRow.isAssumed, isAt.role] at isAssumed
    cases isAssumed
  | exit =>
    cases exits : m.truth frame.exitGuard with
    | false => exact vacuous exits
    | true =>
      obtain ⟨store, values, satisfied⟩ := concludes.exits exits
      exact known store values satisfied
  | around loop =>
    cases leaves : frame.takes m loop.backEdge loop.head with
    | false => exact vacuous leaves
    | true =>
      obtain ⟨store, values, satisfied⟩ := concludes.leaves loop isPlace leaves
      exact known store values satisfied

/-- The store that arrived at a place satisfies what is selected there. -/
theorem satisfied_of_concludes {m store : Assignment}
    (concludes : frame.Concludes params candidates template value m) {place : Place}
    (checked : place ≠ .exit) (guard : m.holds (frame.guards place).1 = true)
    (values : ∀ object ∈ frame.objects, m (frame.before object place) = store object) :
    frame.Satisfied params candidates template value place store := by
  rintro candidate isCandidate ⟨i, row, isRow, selected, isAt, made⟩
  obtain ⟨condition, closed⟩ := selection.conditions candidate isCandidate
  have isChecked : row.isChecked = true := by
    rw [TemplateRow.isChecked, isAt.role]
    cases place with
    | entry => rfl
    | exit => exact absurd rfl checked
    | around loop => rfl
  have assumes := proper.assumes_of_concludes selection concludes
  have after := selection.stable m (satisfies_loaded.mpr concludes.solves) assumes i row isRow
    selected isChecked
  rwa [proper.backward_holds_after selection.isParam made condition closed isAt values, guard]
    at after

/-- A step over a back edge leads to a store that satisfies what is selected around its loop, if the
execution can be concluded from there. -/
theorem satisfied_back {m : Assignment} {c : Choices} {source target : Configuration}
    (concluded : frame.Concluded params candidates template value target)
    (follows : frame.Follows m source) (noReturn : frame.NoReturn m source.loc)
    (step : Step frame.body table c source target) (closes : target.loc ≤ source.loc) :
    frame.Satisfied params candidates template value (.around ⟨target.loc, source.loc⟩)
      target.store := by
  obtain ⟨middle, follows, chooses, agree, -⟩ := proper.exists_choose follows c
  have noReturn := proper.noReturn_of_agree (by omega) agree noReturn
  obtain ⟨n, follows, agree, free⟩ := proper.exists_back_step follows chooses step closes
  have noReturn := proper.noReturn_of_agree (by omega) agree fun head b isBack before =>
    noReturn head b isBack (Nat.lt_of_lt_of_le before closes)
  obtain ⟨final, agree, concludes⟩ := concluded n follows noReturn
  have isBack : source.loc ∈ frame.flow.backEdges target.loc :=
    proper.mem_backEdges.mpr ⟨step.edge, closes⟩
  obtain ⟨select, arrives⟩ := free target.loc (Nat.le_refl _) source.loc isBack
  -- at the head, the continued model is as before
  have reached : final.truth (Name.guard target.loc).bool = true := by
    have same : final (Name.guard target.loc).bool = n (Name.guard target.loc).bool :=
      agree (.guard target.loc) .bool (Name.isProper_of_none rfl) (Nat.lt_succ_self _)
    rw [Assignment.truth, same]
    exact follows.reached
  have selects : final.truth (loopSelect source.loc) = true := by
    have rank := proper.rank_loopSelect isBack
    have same : final (loopSelect source.loc) = n (loopSelect source.loc) :=
      agree (.loopSelect source.loc) .bool (Name.isProper_of_none rfl) (by omega)
    rw [Assignment.truth_iff, same, select, decide_eq_true rfl]
  refine proper.satisfied_of_concludes selection concludes (by rintro ⟨⟩) ?_
    fun object isObject => ?_
  · change final.holds (frame.loopGuards ⟨target.loc, source.loc⟩ true).1 = true
    rw [proper.holds_arriving isBack, reached, selects]
    rfl
  · have rank := proper.rank_loopBack isBack object.name
    have same : final (loopBack object source.loc) = n (loopBack object source.loc) :=
      agree (.loopBack object.name source.loc) object.sort
        (proper.back_isProper isObject source.loc) (by omega)
    exact same.trans (arrives object isObject)

omit selection in
/-- At the last location an execution is concluded by a store that satisfies what is selected on
exit: no back edge is left to be taken. -/
theorem concluded_last {final : Assignment}
    (exit : frame.Satisfied params candidates template value .exit final) :
    frame.Concluded params candidates template value ⟨frame.body.length - 1, final⟩ := by
  intro m follows noReturn
  refine ⟨m, fun _ _ _ _ => rfl, follows.solves, fun _ => ⟨final, follows.reads, exit⟩, ?_⟩
  intro loop isBack taken
  have before := proper.accepted.source_lt_last (proper.mem_backEdges.mp isBack).1
  rw [noReturn loop.head loop.backEdge isBack before] at taken
  cases taken

/-- An execution that can be concluded after a step can be concluded before it. A forward step is
part of the model that concludes; a step over a back edge is where the model ends. -/
theorem concluded_step {c : Choices} {source target : Configuration}
    (concluded : frame.Concluded params candidates template value target)
    (step : Step frame.body table c source target) :
    frame.Concluded params candidates template value source := by
  intro m follows noReturn
  obtain ⟨middle, chosen, chooses, agree, noBack⟩ := proper.exists_choose follows c
  have noReturnToo := proper.noReturn_of_agree (by omega) agree noReturn
  rcases Nat.lt_or_ge source.loc target.loc with ahead | closes
  · obtain ⟨n, later, concludes⟩ := concluded middle
      (proper.follows_forward chosen chooses step ahead noBack)
      (proper.noReturn_forward chosen chooses noBack step noReturnToo ahead)
    exact ⟨n, agree.trans (later.mono (by omega)), concludes⟩
  · have last := proper.accepted.source_lt_last step.edge
    refine ⟨middle, agree, chosen.solves, fun reached => ?_, fun loop isBack taken => ?_⟩
    · -- the exit lies behind the back edge
      have notReached : middle.truth frame.exitGuard = false :=
        proper.not_reached chosen.toArrives chooses step (chosen.onward noBack (by omega)) last
          (Nat.le_refl _) (.inl closes)
      cases reached.symm.trans notReached
    · obtain rfl := proper.eq_of_takes chosen chooses noBack step noReturnToo isBack
        (.inl closes) taken
      exact ⟨target.store, fun object isObject =>
        proper.store_step chosen.toArrives chooses step isObject,
        proper.satisfied_back selection concluded follows noReturn step closes⟩

/-- An execution that goes on to the end, with a store that satisfies what is selected on exit, can
be concluded. -/
theorem concluded_of_proceeds {final : Assignment}
    (exit : frame.Satisfied params candidates template value .exit final)
    {configuration : Configuration}
    (proceeds : Proceeds frame.body table configuration ⟨frame.body.length - 1, final⟩) :
    frame.Concluded params candidates template value configuration := by
  -- from the end of the execution to its start
  induction proceeds using Relation.ReflTransGen.head_induction_on with
  | refl => exact proper.concluded_last exit
  | head taken _ ih =>
    obtain ⟨c, step⟩ := taken
    exact proper.concluded_step selection ih step

/-- An execution that goes on from its start to the end, and satisfies there what is selected on
exit, has a start that satisfies what is selected on entry. -/
theorem satisfied_start {start final : Assignment}
    (exit : frame.Satisfied params candidates template value .exit final)
    (proceeds : Proceeds frame.body table ⟨0, start⟩ ⟨frame.body.length - 1, final⟩) :
    frame.Satisfied params candidates template value .entry start := by
  obtain ⟨m, follows, inputs, -⟩ := proper.exists_entry start
  obtain ⟨n, agree, concludes⟩ := proper.concluded_of_proceeds selection exit proceeds m follows
    fun _ _ _ before => absurd before (Nat.not_lt_zero _)
  refine proper.satisfied_of_concludes selection concludes nofun ?_ fun object isObject => ?_
  · have same : n entryGuard = m entryGuard :=
      agree (.guard 0) .bool nofun (Nat.lt_succ_self _)
    change n.truth entryGuard = true
    rw [Assignment.truth, same]
    exact follows.reached
  · have same := proper.input_of_agree agree (by omega) isObject
    exact same.trans (inputs object isObject)

end Proper

end Frame

section Analyze

variable {φ σ : Type} [Solver σ] [SessionSource φ σ]

/-- If the predicate analysis of a well-formed procedure backwards has a result, whatever its
status, then every execution that arrives at the last location with a store that satisfies the
candidates selected on exit has a start that satisfies those selected on entry, and each time that
it took a back edge its store satisfied those selected around the loop. The session must only be
right about `unsat`, and the candidates must leave no value open. -/
theorem start_holds_of_selects {store ensured : Store φ σ} {name : String} {procedure : Procedure}
    {table : SymbolTable} {ssa : Ssa} (absent : store.get? name = none)
    (unopened : NameMap.find? store.sessions name = none)
    (ensures : store.ensure name procedure table = .ok (ssa, ensured))
    (wellFormed : procedure.WellFormed table) {number : Nat} {limits : Limits}
    {candidates : List Expr}
    (conditions : ∀ candidate ∈ candidates,
      candidate.isCondition = true ∧ candidate.hasNondet = false)
    {search : PredicateSearch} {symbols : SymbolSet} {result : AnalysisResult PredicateValue}
    (answered : (analyze ensured name (Domain.start
      (ssa.backwardTemplate number limits candidates) search) symbols).outcome = .ok result)
    (unsat : Solver.UnsatSound ensured.nextSession) {start final : Assignment}
    (exit : ∀ candidate ∈ candidates,
      ssa.SelectsBackward (ssa.backwardTemplate number limits candidates) result.value .exit
        candidate → final.holds candidate = true) :
    (Reaches procedure.body table anyChoices start ⟨procedure.body.length - 1, final⟩ →
      ∀ candidate ∈ candidates,
        ssa.SelectsBackward (ssa.backwardTemplate number limits candidates) result.value .entry
          candidate → start.holds candidate = true) ∧
    ∀ source target c, Reaches procedure.body table anyChoices start source →
      Step procedure.body table c source target → target.loc ≤ source.loc →
      Proceeds procedure.body table target ⟨procedure.body.length - 1, final⟩ →
      ∀ candidate ∈ candidates,
        ssa.SelectsBackward (ssa.backwardTemplate number limits candidates) result.value
          (.around ⟨target.loc, source.loc⟩) candidate → target.store.holds candidate = true := by
  obtain ⟨frame, proper, body, isParam, rfl, begun, last, status, larger, holds, explored, value,
    -⟩ := explore_of_ensured absent unopened ensures wellFormed answered
  have rowTerms : ∀ row ∈ ((frame.complete procedure.params).backwardTemplate number limits
      candidates).rows, PredicateTemplate.RowOver (Run.NoLiteral number) row := by
    intro row isRow
    obtain ⟨candidate, isCandidate, made⟩ := Ssa.exists_backward_candidate isRow
    obtain ⟨condition, closed⟩ := conditions candidate isCandidate
    exact (proper.backwardRow_over isParam made condition closed).mono (Frame.Own.noLiteral number)
  have selection : frame.BackwardSelection procedure.params candidates
      ((frame.complete procedure.params).backwardTemplate number limits candidates)
      result.value := by
    refine ⟨isParam, conditions, fun row => Ssa.exists_backward_candidate, ?_⟩
    rw [value]
    exact PredicateTemplate.stable_of_explore _ unsat (proper.loaded_terms number) rowTerms holds
      explored
  rw [← body]
  constructor
  · intro reaches
    exact proper.satisfied_start selection exit reaches.proceeds
  · intro source target c reaches step closes proceeds
    obtain ⟨m, follows, noReturn⟩ := proper.exists_follows_noReturn reaches
    have concluded := proper.concluded_of_proceeds selection exit proceeds
    exact proper.satisfied_back selection concluded follows noReturn step closes

end Analyze

/-- Does nothing with its number. -/
def idle : Procedure where
  params := [⟨"x", .int⟩]
  body := [.skip, .endFunction]

namespace Idle

/-- The number is an integer that is left open. This is true in no store. -/
def openNumber : Expr := .equation (.var ⟨"x", .int⟩) (.nondet .int)

/-- A store whose sessions know that nothing violates what never has a value. -/
def guarded : Store Certificates CertifiedSession where
  source := {
    refutations := [.ofUnvalued (Name.violation 0 0).bool (Name.guard 0).bool
      (.equation (.var (Name.input "x").int) (.nondet .int)) fun _ => rfl] }

/-- The predicate analysis of the candidate backwards. -/
def predicates (ssa : Ssa) (ensured : Store Certificates CertifiedSession) :
    Except AnalysisError (AnalysisResult PredicateValue) :=
  (analyze ensured "idle" (Domain.start (ssa.backwardTemplate 0 {} [openNumber])
    ({} : PredicateSearch)) []).outcome

end Idle

/-- Backwards, a candidate with an open value is selected on entry, and nothing on exit, although
the session is right about `unsat`; but it is true at the start of no execution, and each one
arrives at the last location. -/
theorem selects_unvalued_on_entry : ∃ ssa ensured result,
    Idle.guarded.ensure "idle" idle [] = .ok (ssa, ensured) ∧
    idle.WellFormed [] ∧ Idle.openNumber.isCondition = true ∧
    Solver.UnsatSound ensured.nextSession ∧
    Idle.predicates ssa ensured = .ok result ∧ result.status = .converged ∧
    (∀ candidate, ¬ ssa.SelectsBackward (ssa.backwardTemplate 0 {} [Idle.openNumber])
      result.value .exit candidate) ∧
    ssa.SelectsBackward (ssa.backwardTemplate 0 {} [Idle.openNumber]) result.value .entry
      Idle.openNumber ∧
    ∀ start : Assignment, Reaches idle.body [] anyChoices start ⟨1, start⟩ ∧
      start.holds Idle.openNumber = false := by
  have wellFormed : idle.WellFormed [] := by
    refine ⟨?_, ?_, ?_⟩ <;> decide
  obtain ⟨ssa, ensured, ensures, opens, roles, entry⟩ : ∃ ssa ensured,
      Idle.guarded.ensure "idle" idle [] = .ok (ssa, ensured) ∧
      ensured.nextSession = ⟨Idle.guarded.source, [[]], []⟩ ∧
      (ssa.backwardTemplate 0 {} [Idle.openNumber]).rows.map (·.role) = [.output] ∧
      ssa.SelectsBackward (ssa.backwardTemplate 0 {} [Idle.openNumber]) [true] .entry
        Idle.openNumber := by
    refine ⟨_, _, rfl, rfl, rfl, ?_⟩
    exact ⟨0, _, rfl, rfl, ⟨rfl, rfl, rfl⟩, 0, _, List.mem_of_getElem? (i := 0) rfl, rfl⟩
  have evaluates : (Idle.guarded.ensure "idle" idle []).toOption.any
      (fun (ssa, ensured) => (Idle.predicates ssa ensured).toOption.any fun result =>
        result.status == .converged && result.value == [true]) = true := by
    decide +kernel
  rw [ensures] at evaluates
  obtain ⟨result, answered, passes⟩ := exists_ok_of_any (x := Idle.predicates ssa ensured)
    evaluates
  obtain ⟨converged, value⟩ : result.status = .converged ∧ result.value = [true] := by
    simpa using passes
  rw [← value] at entry
  refine ⟨ssa, ensured, result, ensures, wellFormed, by decide, opens ▸ CertifiedSession.unsatSound,
    answered, converged, ?_, entry, fun start => ?_⟩
  · rintro candidate ⟨i, row, isRow, -, isAt, -⟩
    have role : row.role ∈ [Role.output] :=
      roles ▸ List.mem_map_of_mem (List.mem_of_getElem? isRow)
    rw [isAt.role] at role
    exact absurd role (by decide)
  · exact ⟨.step (c := default) .entry trivial (.of_after rfl rfl rfl), rfl⟩

/-- Counts a global down to zero, unless it is negative. -/
def descent : Procedure where
  params := []
  body := [
    .goto (.cmp .lt (.var ⟨"x", .int⟩) (.int 0)) 4,
    .goto (.cmp .le (.var ⟨"x", .int⟩) (.int 0)) 4,
    .assign ⟨"x", .int⟩ (.arith .sub (.var ⟨"x", .int⟩) (.int 1)),
    .goto (.bool true) 1,
    .endFunction]

namespace Descent

/-- The number is not negative. -/
def notNegative : Expr := .cmp .ge (.var ⟨"x", .int⟩) (.int 0)

/-- The formulas of the descent, and what is assumed backwards: the number is negative neither on
exit nor when the back edge is taken. -/
def assumed : List Expr := [
  .equation (.var (Name.guard 0).bool) (.bool true),
  .equation (.var (Name.cond 0).bool) (.cmp .lt (.var (Name.input "x").int) (.int 0)),
  .equation (.var (Name.phi "x" 1).int) (.conditional (.var (Name.loopSelect 3).bool)
    (.var (Name.loopBack "x" 3).int) (.var (Name.input "x").int)),
  .equation (.var (Name.guard 1).bool) (.junction .or [
    .junction .and [.var (Name.guard 0).bool, .negation (.var (Name.cond 0).bool)],
    .var (Name.loopSelect 3).bool]),
  .equation (.var (Name.cond 1).bool) (.cmp .le (.var (Name.phi "x" 1).int) (.int 0)),
  .equation (.var (Name.phi "x" 4).int) (.conditional
    (.junction .and [.var (Name.guard 0).bool, .var (Name.cond 0).bool])
    (.var (Name.input "x").int) (.var (Name.phi "x" 1).int)),
  .equation (.var (Name.guard 4).bool) (.junction .or [
    .junction .and [.var (Name.guard 0).bool, .var (Name.cond 0).bool],
    .junction .and [.var (Name.guard 1).bool, .var (Name.cond 1).bool]]),
  .junction .and [
    .implication (.var (Name.guard 4).bool) (.cmp .ge (.var (Name.phi "x" 4).int) (.int 0)),
    .implication (.var (Name.guard 3).bool) (.cmp .ge (.var (Name.version "x" 2).int) (.int 0))]]

/-- The number is negative on entry. -/
def negativeOnEntry : List Expr := assumed ++ [
  .equation (.var (Name.violation 0 0).bool) (.junction .and [.var (Name.guard 0).bool,
    .negation (.cmp .ge (.var (Name.input "x").int) (.int 0))]),
  .var (Name.violation 0 0).bool]

/-- A negative number arrives over the back edge. -/
def negativeAround : List Expr := assumed ++ [
  .equation (.var (Name.violation 0 2).bool) (.junction .and [.var (Name.guard 1).bool,
    .var (Name.loopSelect 3).bool,
    .negation (.cmp .ge (.var (Name.loopBack "x" 3).int) (.int 0))]),
  .var (Name.violation 0 2).bool]

/-- The descent is left at once with a negative number. -/
def leaving : Model :=
  [((Name.input "x").int, .int (-1)), ((Name.loopSelect 3).bool, .bool false),
    ((Name.loopBack "x" 3).int, .int 0), ((Name.guard 0).bool, .bool true),
    ((Name.cond 0).bool, .bool true), ((Name.phi "x" 1).int, .int (-1)),
    ((Name.guard 1).bool, .bool false), ((Name.cond 1).bool, .bool true),
    ((Name.guard 2).bool, .bool false), ((Name.version "x" 2).int, .int (-2)),
    ((Name.guard 3).bool, .bool false), ((Name.phi "x" 4).int, .int (-1)),
    ((Name.guard 4).bool, .bool true), ((Name.violation 0 0).bool, .bool true)]

/-- What is assumed leaves no negative number, neither on entry nor over the selected back edge. -/
theorem not_negative_of_assumed {m : Assignment} (satisfies : m.Satisfies assumed) :
    ∃ input back select, m (Name.input "x").int = .int input ∧
      m (Name.loopBack "x" 3).int = .int back ∧ m (Name.loopSelect 3).bool = .bool select ∧
      0 ≤ input ∧ (select = true → 0 ≤ back) := by
  simp only [Assignment.Satisfies, assumed, List.forall_mem_cons] at satisfies
  obtain ⟨entered, tested, merged, arrived, ended, left, exits, known, -⟩ := satisfies
  obtain ⟨input, isInput⟩ := m.int_of_sort (s := (Name.input "x").int) rfl
  obtain ⟨back, isBack⟩ := m.int_of_sort (s := (Name.loopBack "x" 3).int) rfl
  obtain ⟨select, isSelect⟩ := m.bool_of_sort (s := (Name.loopSelect 3).bool) rfl
  obtain ⟨head, isHead⟩ := m.int_of_sort (s := (Name.phi "x" 1).int) rfl
  obtain ⟨final, isFinal⟩ := m.int_of_sort (s := (Name.phi "x" 4).int) rfl
  obtain ⟨reached, isReached⟩ := m.bool_of_sort (s := (Name.guard 4).bool) rfl
  obtain ⟨inside, isInside⟩ := m.bool_of_sort (s := (Name.guard 1).bool) rfl
  obtain ⟨negative, isNegative⟩ := m.bool_of_sort (s := (Name.cond 0).bool) rfl
  obtain ⟨leave, isLeave⟩ := m.bool_of_sort (s := (Name.cond 1).bool) rfl
  obtain ⟨passes, isPasses⟩ := m.bool_of_sort (s := (Name.guard 3).bool) rfl
  obtain ⟨next, isNext⟩ := m.int_of_sort (s := (Name.version "x" 2).int) rfl
  simp only [Expr.eval, Expr.evalJunction, Assignment.valuation_apply, isInput, isBack, isSelect,
    isHead, isFinal, isReached, isInside, isNegative, isLeave, isPasses, isNext,
    Option.bind_some, Value.toBool?, Value.toInt?, CmpOp.apply, Connective.neutral,
    Option.some.injEq, Value.bool.injEq, Value.int.injEq, decide_eq_true_eq]
    at entered tested merged arrived ended left exits known
  have first : 0 ≤ input := by
    -- a negative number on entry is the number on exit
    by_contra low
    obtain rfl : negative = true := tested.trans (decide_eq_true (Int64.not_le.mp low))
    obtain rfl : reached = true := by simpa [entered, Value.toBool?] using exits
    obtain rfl : final = input := by simpa [entered, Value.toBool?] using left
    simp [low, Value.toBool?] at known
  refine ⟨input, back, select, isInput, isBack, isSelect, first, ?_⟩
  rintro rfl
  -- with a negative number at its head, the loop is left
  by_contra low
  obtain rfl : negative = false := tested.trans (decide_eq_false (Int64.not_lt.mpr first))
  obtain rfl : head = back := by simpa using merged
  obtain rfl : leave = true :=
    ended.trans (decide_eq_true (Int64.le_of_lt (Int64.not_le.mp low)))
  obtain rfl : inside = true := by simpa [entered, Value.toBool?] using arrived
  obtain rfl : reached = true := by simpa [entered, Value.toBool?] using exits
  obtain rfl : final = head := by simpa [entered, Value.toBool?] using left
  simp [low, Value.toBool?] at known

theorem not_negativeOnEntry (m : Assignment) : ¬ m.Satisfies negativeOnEntry := by
  intro satisfies
  obtain ⟨known, violation⟩ := List.forall_mem_append.mp satisfies
  simp only [List.forall_mem_cons] at violation
  obtain ⟨meaning, violated, -⟩ := violation
  obtain ⟨input, back, select, isInput, -, -, first, -⟩ := not_negative_of_assumed known
  obtain ⟨enters, isEnters⟩ := m.bool_of_sort (s := (Name.guard 0).bool) rfl
  simp only [Expr.eval, Expr.evalJunction, Assignment.valuation_apply, isInput, isEnters,
    Option.bind_some, Value.toBool?, Value.toInt?, CmpOp.apply, Connective.neutral,
    Option.some.injEq] at meaning violated
  cases enters <;> simp [violated, first] at meaning

theorem not_negativeAround (m : Assignment) : ¬ m.Satisfies negativeAround := by
  intro satisfies
  obtain ⟨known, violation⟩ := List.forall_mem_append.mp satisfies
  simp only [List.forall_mem_cons] at violation
  obtain ⟨meaning, violated, -⟩ := violation
  obtain ⟨input, back, select, -, isBack, isSelect, -, second⟩ := not_negative_of_assumed known
  obtain ⟨inside, isInside⟩ := m.bool_of_sort (s := (Name.guard 1).bool) rfl
  simp only [Expr.eval, Expr.evalJunction, Assignment.valuation_apply, isBack, isSelect, isInside,
    Option.bind_some, Value.toBool?, Value.toInt?, CmpOp.apply, Connective.neutral,
    Option.some.injEq] at meaning violated
  cases select with
  | false => cases inside <;> simp [violated] at meaning
  | true => cases inside <;> simp [violated, second rfl] at meaning

/-- A store whose sessions know where the descent comes from a negative number. -/
def guarded : Store Certificates CertifiedSession where
  source := {
    refutations := [⟨negativeOnEntry, not_negativeOnEntry⟩, ⟨negativeAround, not_negativeAround⟩]
    models := [leaving] }

/-- The predicate analysis of the descent, backwards. -/
def predicates (ssa : Ssa) (ensured : Store Certificates CertifiedSession) :
    Except AnalysisError (AnalysisResult PredicateValue) :=
  (analyze ensured "descent" (Domain.start (ssa.backwardTemplate 0 {} [notNegative])
    ({} : PredicateSearch)) []).outcome

end Descent

/-- A descent that ends with a number that is not negative was started with one, and had one
whenever the back edge was taken. -/
theorem not_negative_before_descent : ∃ ssa ensured result,
    Descent.guarded.ensure "descent" descent Countdown.table = .ok (ssa, ensured) ∧
    Descent.predicates ssa ensured = .ok result ∧ result.status = .converged ∧
    ∀ start final : Assignment, final.holds Descent.notNegative = true →
      (Reaches descent.body Countdown.table anyChoices start ⟨4, final⟩ →
        start.holds Descent.notNegative = true) ∧
      ∀ source target c, Reaches descent.body Countdown.table anyChoices start source →
        Step descent.body Countdown.table c source target → source.loc = 3 → target.loc = 1 →
        Proceeds descent.body Countdown.table target ⟨4, final⟩ →
          target.store.holds Descent.notNegative = true := by
  have wellFormed : descent.WellFormed Countdown.table := by
    refine ⟨?_, ?_, ?_⟩ <;> decide
  obtain ⟨ssa, ensured, ensures, opens, entry, around⟩ : ∃ ssa ensured,
      Descent.guarded.ensure "descent" descent Countdown.table = .ok (ssa, ensured) ∧
      ensured.nextSession = ⟨Descent.guarded.source, [[]], []⟩ ∧
      ssa.SelectsBackward (ssa.backwardTemplate 0 {} [Descent.notNegative]) [true, true, true]
        .entry Descent.notNegative ∧
      ssa.SelectsBackward (ssa.backwardTemplate 0 {} [Descent.notNegative]) [true, true, true]
        (.around ⟨1, 3⟩) Descent.notNegative := by
    refine ⟨_, _, rfl, rfl, ?_, ?_⟩
    · exact ⟨0, _, rfl, rfl, ⟨rfl, rfl, rfl⟩, 0, _, List.mem_of_getElem? (i := 0) rfl, rfl⟩
    · exact ⟨2, _, rfl, rfl, ⟨rfl, rfl, rfl⟩, 0, _, List.mem_of_getElem? (i := 2) rfl, rfl⟩
  have evaluates : (Descent.guarded.ensure "descent" descent Countdown.table).toOption.any
      (fun (ssa, ensured) => (Descent.predicates ssa ensured).toOption.any fun result =>
        result.status == .converged && result.value == [true, true, true]) = true := by
    decide +kernel
  rw [ensures] at evaluates
  obtain ⟨result, answered, passes⟩ := exists_ok_of_any (x := Descent.predicates ssa ensured)
    evaluates
  obtain ⟨converged, value⟩ : result.status = .converged ∧ result.value = [true, true, true] := by
    simpa using passes
  refine ⟨ssa, ensured, result, ensures, answered, converged, fun start final ends => ?_⟩
  rw [← value] at entry around
  have exit : ∀ candidate ∈ [Descent.notNegative],
      ssa.SelectsBackward (ssa.backwardTemplate 0 {} [Descent.notNegative]) result.value .exit
        candidate → final.holds candidate = true := by
    intro candidate listed _
    obtain rfl := List.mem_singleton.mp listed
    exact ends
  have unsat : Solver.UnsatSound ensured.nextSession := opens ▸ CertifiedSession.unsatSound
  constructor
  · intro reaches
    exact (start_holds_of_selects rfl rfl ensures wellFormed (by decide) answered unsat exit).1
      reaches _ List.mem_cons_self entry
  · intro source target c reaches step isBack isHead proceeds
    refine (start_holds_of_selects rfl rfl ensures wellFormed (by decide) answered unsat exit).2
      source target c reaches step (by omega) proceeds _ List.mem_cons_self ?_
    rw [isBack, isHead]
    exact around

end TemplateAnalysis
