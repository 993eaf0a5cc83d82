import TemplateAnalysis.Proofs.Solver.Certified
import TemplateAnalysis.Proofs.Ssa.OverApproximation
import TemplateAnalysis.Proofs.Ssa.RoundTrip
import TemplateAnalysis.Proofs.Template.Observations
import TemplateAnalysis.Proofs.Template.Ranking

/-! # Converged ranking analyses prove termination

A ranking row speaks only about arriving and leaving over one and the same back edge. It still
covers the heads of several back edges: were a round trip to end over another back edge than the
first, then in a model of the trip that selects it as well, with the final store arriving over it,
the store would have to descend to itself. So all late round trips from the head that is reached
forever go over its first back edge, and descend in the rank of its row, which is well founded.
-/

namespace TemplateAnalysis

namespace RankingTemplate

theorem ranks_self (tuple : List (List Int64)) (numbers : List Int64) :
    ranks tuple numbers numbers = false := by
  induction tuple with
  | nil => rfl
  | cons component rest ih => simp [ranks, ih]

end RankingTemplate

namespace Frame

variable {frame : Frame} {table : SymbolTable}

/-- The row of a loop. -/
def rankingRow (frame : Frame) (loop : Loop) : TemplateRow :=
  .ranking ((frame.rankable loop).map fun o => (.var o.var, .var o.postVar))
    (frame.loopGuards loop true).1 (frame.loopGuards loop true).2

/-- The numbers that a store gives to the variables of a loop. -/
def numbers (frame : Frame) (loop : Loop) (store : Assignment) : List Int64 :=
  (frame.rankable loop).map fun o => ((store o.object).toInt?).getD 0

namespace Proper

variable (proper : frame.Proper table) {loop : Loop}
  (isBack : loop.backEdge ∈ frame.flow.backEdges loop.head)
include proper isBack

/-- The variables of a ranking row are integer objects merged at the head. -/
theorem mem_rankable {o : Observation} (member : o ∈ frame.rankable loop) :
    o.object ∈ frame.objects ∧ o.object.sort = .int ∧ o.var = loopBack o.object loop.backEdge ∧
      o.postVar = (frame.definitionAfter loop.backEdge o.object).version o.object := by
  obtain ⟨isObserved, kept⟩ := List.mem_filter.mp member
  obtain ⟨object, isMerged, rfl⟩ := (proper.mem_observeLoop isBack).mp isObserved
  have inside := proper.back_edge_inside isBack
  have isObject := ((proper.mem_mergedObjects (by omega)).mp isMerged).1
  rw [Bool.and_eq_true, beq_iff_eq] at kept
  exact ⟨isObject, kept.1, rfl, rfl⟩

theorem rankingRow_over : RankingTemplate.RowOver frame.Own (frame.rankingRow loop) := by
  refine ⟨proper.arriving_term isBack, proper.leaving_term isBack, fun pair member => ?_⟩
  obtain ⟨o, isRankable, rfl⟩ := List.mem_map.mp member
  obtain ⟨isObject, sort, before, after⟩ := proper.mem_rankable isBack isRankable
  have inside := (proper.back_edge_inside isBack).2
  have rank := proper.rank_definitionAfter inside isObject
  have ownBefore : frame.Own o.var := before ▸ proper.own_loopBack isBack isObject
  have ownAfter : frame.Own o.postVar := after ▸ proper.own_version isObject (by omega)
  have sortBefore : o.var.sort = .int := by rw [before]; exact sort
  have sortAfter : o.postVar.sort = .int := by rw [after, Definition.sort_version]; exact sort
  exact ⟨sortBefore ▸ .var ownBefore, sortAfter ▸ .var ownAfter⟩

variable (loop) in
/-- In a model with a transition around a loop, from one store to another, a rank that is not
violated ranks the step between the stores. -/
theorem ranks_of_transition {m : Assignment} {source target : Assignment} {rank : Rank}
    (ranked : m.holds (RankingTemplate.violation (frame.rankingRow loop) rank) = false)
    (known : rank ≠ .unknown) (guard : m.truth (Name.guard loop.head).bool = true)
    (select : m.truth (loopSelect loop.backEdge) = true)
    (taken : frame.takes m loop.backEdge loop.head = true)
    (before : ∀ object ∈ frame.objects, m (loopBack object loop.backEdge) = source object)
    (after : ∀ object ∈ frame.objects,
      frame.valueAfter m loop.backEdge object = target object) :
    ∃ tuple, rank = .lexicographic tuple ∧
      RankingTemplate.ranks tuple (frame.numbers loop source) (frame.numbers loop target) =
        true := by
  have within := proper.rankingRow_over isBack
  have transition : m.holds (RankingTemplate.transition (frame.rankingRow loop)) = true := by
    rw [RankingTemplate.transition, m.holds_and within.preGuard within.postGuard, Bool.and_eq_true]
    refine ⟨(proper.holds_arriving isBack m).trans ?_, taken⟩
    rw [guard, select]
    rfl
  cases rank with
  | bottom =>
    change m.holds (RankingTemplate.transition _) = false at ranked
    rw [transition] at ranked
    cases ranked
  | unknown => exact absurd rfl known
  | lexicographic tuple =>
    have lex := RankingTemplate.lexDecrease_term within.vars tuple
    rw [RankingTemplate.violation, m.holds_and (RankingTemplate.transition_term within) lex.not,
      transition, m.holds_not lex, Bool.true_and, Bool.not_eq_false'] at ranked
    refine ⟨tuple, rfl, ranked ▸ (m.holds_of_eval ?_).symm⟩
    -- the variables have the numbers of the stores
    have values : ∀ {f : Observation → Symbol} {store : Assignment},
        (∀ o ∈ frame.rankable loop, m (f o) = store o.object) →
        (frame.rankable loop).map (fun o => (Expr.var (f o)).eval m.valuation) =
          (frame.numbers loop store).map fun n => some (.int n) := by
      intro f store same
      rw [numbers, List.map_map]
      refine List.map_congr_left fun o isRankable => ?_
      have sort := (store.sorted o.object).trans (proper.mem_rankable isBack isRankable).2.1
      change some (m (f o)) = some (.int _)
      rw [same o isRankable]
      cases value : store o.object with
      | int n => simp [value]
      | bool b =>
        rw [value] at sort
        cases sort
    refine RankingTemplate.eval_lexDecrease ?_ ?_ tuple
    · refine (List.map_map ..).trans (values fun o isRankable => ?_)
      obtain ⟨isObject, -, same, -⟩ := proper.mem_rankable isBack isRankable
      rw [same]
      exact before o.object isObject
    · refine (List.map_map ..).trans (values fun o isRankable => ?_)
      obtain ⟨isObject, -, -, same⟩ := proper.mem_rankable isBack isRankable
      rw [same]
      exact after o.object isObject

end Proper

/-- Every row of the procedure has a rank that no model of its formulas violates. -/
def Ranked (frame : Frame) : Prop :=
  ∀ row ∈ frame.rankingRows, ∃ rank, rank ≠ .unknown ∧
    ∀ m : Assignment, m.Solves frame.equalities →
      m.holds (RankingTemplate.violation row rank) = false

section Endless

variable (proper : frame.Proper table) {run : Nat → Configuration}
  (endless : Endless frame.body table run)
include proper endless

/-- A round trip descends in the rank of the first back edge. -/
theorem Proper.descends (ranked : frame.Ranked) {head first : Nat} {others : List Nat}
    (backs : frame.flow.backEdges head = first :: others) {rank : Rank} (known : rank ≠ .unknown)
    (ranks : ∀ m : Assignment, m.Solves frame.equalities →
      m.holds (RankingTemplate.violation (frame.rankingRow ⟨head, first⟩) rank) = false)
    {n m : Nat} (closed : head ≤ (run n).loc) (starts : (run (n + 1)).loc = head) (less : n < m)
    (behind : ∀ k, n + 1 < k → k ≤ m → head < (run k).loc) (returns : (run (m + 1)).loc = head) :
    ∃ tuple, rank = .lexicographic tuple ∧ RankingTemplate.ranks tuple
      (frame.numbers ⟨head, first⟩ (run (n + 1)).store)
      (frame.numbers ⟨head, first⟩ (run (m + 1)).store) = true := by
  obtain ⟨isBack, model, solves, guard, select, taken, stores⟩ :=
    proper.exists_round_trip endless backs closed starts less behind returns
  by_cases same : (run m).loc = first
  · rw [same] at isBack select taken
    simp only [same, if_true] at stores
    exact proper.ranks_of_transition ⟨head, first⟩ isBack (ranks model solves) known guard
      select taken (fun object isObject => (stores object isObject).2)
      fun object isObject => (stores object isObject).1
  · -- over another back edge, the final store would descend to itself
    simp only [same, if_false] at stores
    obtain ⟨other, isKnown, noViolation⟩ := ranked (frame.rankingRow ⟨head, (run m).loc⟩)
      (List.mem_map_of_mem (Flow.mem_loops.mpr isBack))
    obtain ⟨tuple, -, descends⟩ := proper.ranks_of_transition ⟨head, (run m).loc⟩ isBack
      (noViolation model solves) isKnown guard select taken
      (fun object isObject => (stores object isObject).2)
      fun object isObject => (stores object isObject).1
    rw [RankingTemplate.ranks_self] at descends
    cases descends

end Endless

/-- A procedure whose rows are ranked has no execution that never ends. -/
theorem Proper.not_endless (proper : frame.Proper table) (ranked : frame.Ranked)
    (run : Nat → Configuration) : ¬ Endless frame.body table run := by
  intro endless
  obtain ⟨head, start, stays, again⟩ := exists_recurrent fun n =>
    (proper.exists_follows_run endless n).choose_spec.inside
  obtain ⟨n, after, visits, -⟩ := exists_return stays again (Nat.le_refl start)
  have late := Nat.le_of_lt after
  obtain ⟨first, others, backs⟩ : ∃ first others, frame.flow.backEdges head = first :: others := by
    obtain ⟨c, step⟩ := endless.steps n
    have isBack : (run n).loc ∈ frame.flow.backEdges head := by
      rw [proper.flow_eq]
      exact Flow.mem_backEdges.mpr ⟨visits ▸ step.edge, stays n late⟩
    exact List.exists_cons_of_ne_nil (List.ne_nil_of_mem isBack)
  have isFirst : first ∈ frame.flow.backEdges head := by simp [backs]
  obtain ⟨rank, known, ranks⟩ := ranked (frame.rankingRow ⟨head, first⟩)
    (List.mem_map_of_mem (Flow.mem_loops.mpr isFirst))
  have descends : ∀ n, start ≤ n → (run (n + 1)).loc = head → ∃ m, n < m ∧
      (run (m + 1)).loc = head ∧ ∃ tuple, rank = .lexicographic tuple ∧
        RankingTemplate.ranks tuple (frame.numbers ⟨head, first⟩ (run (n + 1)).store)
          (frame.numbers ⟨head, first⟩ (run (m + 1)).store) = true := by
    intro n late visits
    obtain ⟨m, less, returns, behind⟩ := exists_return stays again late
    exact ⟨m, less, returns, proper.descends endless ranked backs known ranks (stays n late) visits
      less behind returns⟩
  obtain ⟨-, -, -, tuple, rfl, -⟩ := descends n late visits
  -- by induction on the rank, no late visit has any numbers
  have never : ∀ numbers, ∀ n, start ≤ n → (run (n + 1)).loc = head →
      frame.numbers ⟨head, first⟩ (run (n + 1)).store ≠ numbers := by
    intro numbers
    induction numbers using (RankingTemplate.wellFounded_ranks tuple).induction with
    | h numbers ih =>
      rintro n late visits rfl
      obtain ⟨m, less, returns, _, same, descent⟩ := descends n late visits
      cases same
      exact ih _ descent m (by omega) returns rfl
  exact never _ n late visits rfl

end Frame

section Analyze

variable {φ σ ψ τ : Type} [Solver σ] [SessionSource φ σ] [Solver τ] [SessionSource ψ τ]

/-- If the ranking analysis of a well-formed procedure converges, with a sound session for the
queries and whatever sessions for the coefficients, then no execution of it goes on forever. -/
theorem not_endless_of_converged {store ensured : Store φ σ} {name : String}
    {procedure : Procedure} {table : SymbolTable} {ssa : Ssa} (absent : store.get? name = none)
    (unopened : NameMap.find? store.sessions name = none)
    (ensures : store.ensure name procedure table = .ok (ssa, ensured))
    (wellFormed : procedure.WellFormed table) {number : Nat} {limits : Limits}
    {search : RankingSearch ψ τ} {symbols : SymbolSet} {result : AnalysisResult RankingValue}
    (answered : (analyze ensured name (Domain.start
      (RankingTemplate.ofRows number limits ssa.rankingRows) search) symbols).outcome = .ok result)
    (converged : result.status = .converged) (unsat : Solver.UnsatSound ensured.nextSession)
    (sat : Solver.SatSound ensured.nextSession) (run : Nat → Configuration) :
    ¬ Endless procedure.body table run := by
  obtain ⟨frame, proper, body, -, rfl, start, last, status, template, holds, explored, -, ended⟩ :=
    explore_of_ensured absent unopened ensures wellFormed answered
  obtain ⟨rfl, decided⟩ := ended converged
  have rowTerms : ∀ row ∈ frame.rankingRows,
      RankingTemplate.RowOver (Run.NoLiteral number) row := by
    intro row isRow
    obtain ⟨loop, isLoop, rfl⟩ := List.mem_map.mp isRow
    exact (proper.rankingRow_over (Flow.mem_loops.mp isLoop)).mono (Frame.Own.noLiteral number)
  rw [← body]
  refine proper.not_endless (fun row isRow => ?_) run
  obtain ⟨rank, known, ranked⟩ := RankingTemplate.ranked_of_explore
    (.ofRows number limits frame.rankingRows) unsat sat (proper.loaded_terms number) rowTerms holds
    explored decided isRow
  exact ⟨rank, known, fun m solves => ranked m (Frame.satisfies_loaded.mpr solves)⟩

end Analyze

namespace Countdown

/-- One pass of the countdown, from five to four. -/
def passing : Model :=
  [((Name.input "x").int, .int 5), ((Name.loopSelect 2).bool, .bool true),
    ((Name.loopBack "x" 2).int, .int 5), ((Name.phi "x" 0).int, .int 5),
    ((Name.guard 0).bool, .bool true), ((Name.cond 0).bool, .bool false),
    ((Name.guard 1).bool, .bool true), ((Name.version "x" 1).int, .int 4),
    ((Name.guard 2).bool, .bool true), ((Name.guard 3).bool, .bool false),
    ((Name.violation 0 0).bool, .bool true)]

/-- A pass of the countdown in which the number does not descend. -/
def unranked : List Expr := formulas ++ [
  .equation (.var (Name.violation 0 0).bool) (.junction .and [.var (Name.guard 0).bool,
    .var (Name.loopSelect 2).bool, .var (Name.guard 2).bool, .negation (.junction .and [
      .cmp .gt (.var (Name.loopBack "x" 2).int) (.var (Name.version "x" 1).int),
      .cmp .ge (.var (Name.loopBack "x" 2).int) (.int 0)])]),
  .var (Name.violation 0 0).bool]

theorem not_unranked (m : Assignment) : ¬ m.Satisfies unranked := by
  intro satisfies
  simp only [Assignment.Satisfies, unranked, List.forall_mem_append, List.forall_mem_cons]
    at satisfies
  obtain ⟨held, meaning, violated, -⟩ := satisfies
  obtain ⟨input, back, select, head, pass⟩ := exists_pass held
  simp only [Expr.eval, Expr.evalJunction, Assignment.valuation_apply, pass.isBack, pass.isSelect,
    pass.descends, pass.enters, pass.passes, Option.bind_some, Value.toBool?, Value.toInt?,
    CmpOp.apply, Connective.neutral, Option.some.injEq] at meaning violated
  -- a violation arrives over the back edge and passes the loop once more
  obtain ⟨rfl, positive⟩ : select = true ∧ ¬ head ≤ 0 := by
    cases select <;> by_cases low : head ≤ 0 <;> simp [violated, low] at meaning ⊢
  obtain rfl : head = back := pass.merges
  obtain ⟨decreases, -, bounded⟩ := pred_of_positive positive
  simp [violated, positive, decreases, bounded] at meaning

/-- A store whose sessions know a pass of the countdown, and that every pass descends. -/
def store : Store Certificates CertifiedSession where
  source := ⟨[⟨unranked, not_unranked⟩], [passing]⟩

/-- The search for a coefficient, with sessions that try one. -/
def search : RankingSearch Certificates CertifiedSession where
  source := ⟨[], [[((Name.coefficient 0 0 0 0).int, .int 1)]]⟩

/-- The ranking analysis of the countdown. -/
def ranking (ssa : Ssa) (ensured : Store Certificates CertifiedSession) :
    Except AnalysisError (AnalysisResult RankingValue) :=
  (analyze ensured "countdown"
    (Domain.start (RankingTemplate.ofRows 0 {} ssa.rankingRows) search) []).outcome

end Countdown

/-- The analysis of the countdown converges, so the countdown ends. -/
theorem not_endless_countdown : ∃ ssa ensured result,
    Countdown.store.ensure "countdown" countdown Countdown.table = .ok (ssa, ensured) ∧
    Countdown.ranking ssa ensured = .ok result ∧ result.status = .converged ∧
    ∀ run, ¬ Endless countdown.body Countdown.table run := by
  have wellFormed : countdown.WellFormed Countdown.table := by
    refine ⟨?_, ?_, ?_⟩ <;> decide
  obtain ⟨ssa, ensured, ensures, opens⟩ : ∃ ssa ensured,
      Countdown.store.ensure "countdown" countdown Countdown.table = .ok (ssa, ensured) ∧
      ensured.nextSession = ⟨Countdown.store.source, [[]], []⟩ := ⟨_, _, rfl, rfl⟩
  have converges : (Countdown.store.ensure "countdown" countdown Countdown.table).toOption.any
      (fun (ssa, ensured) =>
        (Countdown.ranking ssa ensured).toOption.any (·.status == .converged)) = true := by
    decide +kernel
  rw [ensures] at converges
  obtain ⟨result, answered, converged⟩ := exists_ok_of_any (x := Countdown.ranking ssa ensured)
    converges
  refine ⟨ssa, ensured, result, ensures, answered, eq_of_beq converged, fun run => ?_⟩
  exact not_endless_of_converged rfl rfl ensures wellFormed answered (eq_of_beq converged)
    (opens ▸ CertifiedSession.unsatSound) (opens ▸ CertifiedSession.satSound) run

end TemplateAnalysis
