import TemplateAnalysis.Proofs.Answers
import TemplateAnalysis.Proofs.Calls
import TemplateAnalysis.Proofs.Store.Operations

/-! # What is left after a query, also after one that failed

Queries may end in many ways: there is nothing to ask, the session decides, it does not know or
fails, the domain fails in the middle of what it is told, or the scope cannot be closed. In each case
that is returned from, the session holds what it held before, and the failure returned is the first
error that a session raised. The candidates of a predicate template are in order as well: none is
under test, none waits twice, and none that waits is selected.
-/

namespace TemplateAnalysis

namespace PredicateTemplate

/-- Every candidate waits at most once, to be tried now or later, and none that waits is selected. -/
structure Tidy (template : PredicateTemplate) (search : PredicateSearch) (value : PredicateValue) :
    Prop where
  length : value.length = template.rows.length
  nodup : (search.untried ++ search.rejected).Nodup
  unselected : ∀ row ∈ search.untried ++ search.rejected, value[row]? = some false

namespace Tidy

variable {template : PredicateTemplate} {search next : PredicateSearch} {value : PredicateValue}

theorem lineUp (template : PredicateTemplate) : template.Tidy template.lineUp template.newValue where
  length := List.length_map _
  nodup := by
    have rows : (template.rows.zipIdx.map (·.2)).Nodup := by
      rw [List.zipIdx_map_snd]
      exact List.nodup_range'
    rw [PredicateTemplate.lineUp, List.append_nil]
    exact rows.sublist (List.filter_sublist.map _)
  unselected row member := by
    obtain ⟨first, isRow, -⟩ : ∃ first, template.rows[row]? = some first ∧
        template.isActive first = true := by
      simpa [PredicateTemplate.lineUp, List.mem_zipIdx_iff_getElem?] using member
    rw [newValue, List.getElem?_map, isRow]
    rfl

/-- Candidates may stop waiting. -/
theorem of_subset (tidy : template.Tidy search value)
    (nodup : (next.untried ++ next.rejected).Nodup)
    (subset : next.untried ++ next.rejected ⊆ search.untried ++ search.rejected) :
    template.Tidy next value :=
  ⟨tidy.length, nodup, fun row member => tidy.unselected row (subset member)⟩

/-- The candidate that is tried no longer waits. -/
theorem tried (tidy : template.Tidy search value) : template.Tidy search.tried value := by
  have fewer : (search.tried.untried ++ search.tried.rejected).Sublist
      (search.untried ++ search.rejected) := (List.tail_sublist _).append_right _
  exact tidy.of_subset (tidy.nodup.sublist fewer) fewer.subset

theorem refute (tidy : template.Tidy search value) (row : Nat) :
    template.Tidy (PredicateTemplate.refute row search value).search
      (PredicateTemplate.refute row search value).value := by
  unfold PredicateTemplate.refute
  split
  · next under =>
    obtain ⟨rest, untried⟩ := untried_of_candidate under
    have moved : (search.tried.untried ++ (search.rejected ++ [row])).Perm
        (search.untried ++ search.rejected) := by
      rw [PredicateSearch.tried, untried, ← List.append_assoc]
      exact List.perm_append_singleton row _
    exact tidy.of_subset (moved.nodup_iff.mpr tidy.nodup) moved.subset
  · exact tidy

theorem confirm (tidy : template.Tidy search value) :
    template.Tidy (PredicateTemplate.confirm search value).search
      (PredicateTemplate.confirm search value).value := by
  unfold PredicateTemplate.confirm
  split
  · exact ⟨tidy.length, tidy.nodup, tidy.unselected⟩
  · next row under =>
    obtain ⟨rest, untried⟩ := untried_of_candidate under
    have waits : (row :: rest ++ search.rejected).Nodup := untried ▸ tidy.nodup
    have later := tidy.tried
    split
    · refine ⟨by rw [List.length_set]; exact tidy.length, later.nodup, fun other member => ?_⟩
      have apart : row ≠ other := by
        rintro rfl
        refine (List.nodup_cons.mp waits).1 ?_
        simpa [PredicateSearch.tried, untried] using member
      rw [List.getElem?_set_ne apart]
      exact later.unselected other member
    · exact later

theorem giveUp (tidy : template.Tidy search value) :
    template.Tidy (PredicateTemplate.giveUp search value).search
      (PredicateTemplate.giveUp search value).value := by
  unfold PredicateTemplate.giveUp
  split
  · exact ⟨tidy.length, tidy.nodup, tidy.unselected⟩
  · exact tidy.tried

/-- After a round no candidate is under test. -/
theorem endRound (tidy : template.Tidy search value) :
    template.Tidy (PredicateTemplate.endRound search) value ∧
      (PredicateTemplate.endRound search).testing = false := by
  unfold PredicateTemplate.endRound
  split
  · have fewer : (search.rejected ++ []).Sublist (search.untried ++ search.rejected) := by
      rw [List.append_nil]
      exact List.sublist_append_right ..
    exact ⟨tidy.of_subset (tidy.nodup.sublist fewer) fewer.subset, rfl⟩
  · exact ⟨⟨tidy.length, tidy.nodup, tidy.unselected⟩, rfl⟩

end Tidy

/-- Between rounds the candidates are in order and none is under test. -/
def AtRest (template : PredicateTemplate) (search : PredicateSearch) (value : PredicateValue) :
    Prop :=
  template.Tidy search value ∧ search.testing = false

theorem keeps_tidy (template : PredicateTemplate) :
    TemplateDomain.Keeps template template.AtRest template.Tidy where
  beginRound atRest := ⟨atRest.1.length, atRest.1.nodup, atRest.1.unselected⟩
  refute tidy _ row := tidy.refute row
  confirm tidy := tidy.confirm
  giveUp tidy := tidy.giveUp
  endRound tidy := tidy.endRound

/-- The value of a template has an entry for every row, so that no question is abandoned. -/
theorem responds_tidy (template : PredicateTemplate) :
    TemplateDomain.Responds template template.Tidy where
  assumption {search value} tidy row missing := by
    have isPart := Template.mem_of_conjParts_error missing
    obtain ⟨⟨first, i⟩, member, made⟩ := List.mem_map.mp isPart
    have isRow := List.mem_zipIdx_iff_getElem?.mp (List.mem_filter.mp member).1
    have inside : i < value.length := by
      rw [tidy.length]
      exact (List.getElem?_eq_some_iff.mp isRow).1
    simp only [List.getElem?_eq_getElem inside] at made
    split at made <;> cases made
  violations _ := returns_ok _
  refute {search value} _ _ row := by
    change Returns (PredicateTemplate.refute row search value).outcome
    unfold PredicateTemplate.refute
    split <;> exact returns_ok _
  confirm {search value} tidy := by
    change Returns (PredicateTemplate.confirm search value).outcome
    unfold PredicateTemplate.confirm
    split
    · exact returns_ok _
    · next row under =>
      obtain ⟨rest, untried⟩ := untried_of_candidate under
      have held := tidy.unselected row (by rw [untried]; exact List.mem_cons_self)
      rw [if_pos (List.getElem?_eq_some_iff.mp held).1]
      exact returns_ok _
  giveUp {search value} _ := by
    change Returns (PredicateTemplate.giveUp search value).outcome
    unfold PredicateTemplate.giveUp
    split <;> exact returns_ok _

section Iterations

variable {σ : Type} [Solver σ]

omit [Solver σ] in
theorem atRest_restarted (template : PredicateTemplate)
    (run : Run PredicateSearch PredicateValue σ) :
    (run.restarted template).Stands template.AtRest := ⟨.lineUp template, rfl⟩

theorem returns_fixpoint (template : PredicateTemplate)
    (run : Run PredicateSearch PredicateValue σ) :
    Returns ((run.restarted template).fixpoint template).1 :=
  Run.returns_fixpoint (keeps_tidy template) (responds_tidy template)
    (atRest_restarted template run)

/-- However an iteration ends, it leaves the candidates in order. -/
theorem atRest_fixpoint (template : PredicateTemplate)
    (run : Run PredicateSearch PredicateValue σ) :
    ((run.restarted template).fixpoint template).2.Stands template.AtRest :=
  Run.stands_fixpoint (keeps_tidy template) (atRest_restarted template run)
    (returns_fixpoint template run)

end Iterations

end PredicateTemplate

section Restored

open ScopedSolver

variable {δ ι V φ σ : Type} [TemplateDomain δ ι V] [Solver σ] [ScopedSolver σ]

/-- What a run has left behind when it ends with an outcome: unless a question was abandoned, its
session holds what it held before, and the outcome is the first error that a session raised, if
any. -/
structure Run.Restores (δ : Type) [TemplateDomain δ ι V] {α : Type} (run : Run ι V σ)
    (outcome : Except Failure α) (last : Run ι V σ) : Prop where
  scopes_eq : Returns outcome → scopes last.session = scopes run.session
  first_error : CandidDomain δ ι V → ∃ asked, last.transcript = run.transcript ++ asked ∧
    asked.errors.head? = raised outcome

theorem Run.restores_iterate (template : δ) {run : Run ι V σ} (opened : scopes run.session ≠ []) :
    run.Restores δ (run.iterate template).1 (run.iterate template).2 where
  scopes_eq returns := by
    obtain ⟨scope, outer, kept⟩ := List.exists_cons_of_ne_nil opened
    rw [kept]
    exact scopes_iterate rfl returns kept
  first_error _ := (reports_iterate template run).exists_asked

variable [FiniteDomain δ ι V]

theorem Run.restores_fixpoint (template : δ) {run : Run ι V σ} (opened : scopes run.session ≠ []) :
    run.Restores δ (run.fixpoint template).1 (run.fixpoint template).2 where
  scopes_eq returns := by
    obtain ⟨scope, outer, kept⟩ := List.exists_cons_of_ne_nil opened
    rw [kept]
    exact scopes_fixpoint rfl returns kept
  first_error _ := (reports_fixpoint template run).exists_asked

variable [SessionSource φ σ]

/-- What an analysis leaves behind, compared with the store in which the procedure has been loaded. -/
structure Analysis.Restores (name : String) (loaded : Store φ σ) (analysis : Analysis δ ι V φ σ) :
    Prop where
  held_eq : (∀ row, analysis.outcome ≠ .error (.failed (.missingRow row))) →
    (analysis.store.held? name).map scopes = (loaded.held? name).map scopes
  first_error : CandidDomain δ ι V → ∀ error, analysis.outcome = .error (.failed (.solver error)) ↔
    analysis.transcript.errors.head? = some error

theorem restores_analyze {store loaded : Store φ σ} {name : String} {count : Nat}
    {loading : Transcript} (loads : store.load? name = some (count, loaded, loading))
    {session : σ} (held : loaded.held? name = some session) (opened : scopes session ≠ [])
    (domain : Domain δ ι V) (symbols : SymbolSet) :
    (analyze store name domain symbols).Restores name loaded := by
  obtain ⟨ssa, form, becomes⟩ := Store.load?_eq_some loads
  obtain rfl : _ = session := Option.some.inj (becomes.held?_eq.symm.trans held)
  obtain ⟨outcome, template, last, explored, ended, left⟩ := analyze_of_form form domain symbols
  refine ⟨fun returned => ?_, fun _ => raised_analyze form domain symbols⟩
  obtain ⟨scope, outer, kept⟩ := List.exists_cons_of_ne_nil opened
  have returns : Returns outcome := by
    rintro row rfl
    exact returned row ended
  rw [left.held?_eq, held, Option.map_some, Option.map_some, kept,
    Run.scopes_explore explored returns kept]

/-- However queries end that are returned from, the session holds what it held before, and what is
returned is the first error that a session raised. The domains of predicates and of ranking functions
are candid. An iteration of predicates, started from the value that says nothing, is always returned
from, and leaves no candidate under test and none that waits twice or is selected. -/
theorem restores_queries :
    (∀ (template : δ) (run : Run ι V σ), scopes run.session ≠ [] →
      run.Restores δ (run.iterate template).1 (run.iterate template).2 ∧
      run.Restores δ (run.fixpoint template).1 (run.fixpoint template).2) ∧
    (∀ (store loaded : Store φ σ) (name : String) (count : Nat) (loading : Transcript) (session : σ)
        (domain : Domain δ ι V) (symbols : SymbolSet),
      store.load? name = some (count, loaded, loading) → loaded.held? name = some session →
      scopes session ≠ [] → (analyze store name domain symbols).Restores name loaded) ∧
    ∀ (template : PredicateTemplate) (run : Run PredicateSearch PredicateValue σ),
      let ended := (run.restarted template).fixpoint template
      Returns ended.1 ∧ ended.2.search.candidate? = none ∧
      ended.2.search.untried.Disjoint ended.2.search.rejected ∧
      ∀ row ∈ ended.2.search.untried ++ ended.2.search.rejected,
        ended.2.value[row]? = some false := by
  refine ⟨fun template run opened => ?_, fun store loaded name count loading session domain symbols
    loads held opened => ?_, fun template run => ?_⟩
  · exact ⟨Run.restores_iterate template opened, Run.restores_fixpoint template opened⟩
  · exact restores_analyze loads held opened domain symbols
  · obtain ⟨tidy, testing⟩ := PredicateTemplate.atRest_fixpoint template run
    refine ⟨PredicateTemplate.returns_fixpoint template run, ?_, ?_, tidy.unselected⟩
    · rw [PredicateSearch.candidate?, testing]
      rfl
    · exact List.disjoint_of_nodup_append tidy.nodup

end Restored

namespace Faltering

/-- The session of the procedure finds a violation of the first row, and closing its scope fails. -/
def store : Store (List Script) ScriptedSession where
  source := [{
    answers := [{ outcome := .ok .sat, model := [((Name.violation 0 0).bool, .bool true)] }]
    failingPops := [0] }]

/-- The session for the coefficients fails. -/
def ranking (ssa : Ssa) :
    Domain RankingTemplate (RankingSearch (List Script) ScriptedSession) RankingValue :=
  Domain.start (.ofRows 0 {} ssa.rankingRows)
    { source := [{ answers := [{ outcome := .error (.backend "out of memory") }] }] }

/-- Two candidates for what holds after a transition. -/
def candidates : PredicateTemplate where
  number := 0
  rows := ["p", "q"].map fun name =>
    .predicate (.bool true) (.var ⟨name, .bool⟩) (.bool true) (.bool true) .output
  maxLevel := 0

/-- The first candidate is violated, and the query about the second one fails. -/
def run : Run PredicateSearch PredicateValue ScriptedSession where
  search := {}
  value := []
  session := {
    id := ⟨"scripted", 0⟩
    refine := false
    script := { answers := [
      { outcome := .ok .sat, model := [((Name.violation 0 0).bool, .bool true)] },
      { outcome := .error (.backend "out of memory") }] } }

end Faltering

open ScopedSolver in
/-- The search for coefficients fails in the middle of a query, and then its scope cannot be closed:
the first error is reported, and the session holds the formulas of the procedure as before. A failure
among candidates leaves the one under test and the one rejected waiting. -/
theorem restores_queries_faltering :
    (∃ ssa ensured count loaded loading session,
      Faltering.store.ensure "counting" Ssa.counting [] = .ok (ssa, ensured) ∧
      ensured.load? "counting" = some (count, loaded, loading) ∧
      loaded.held? "counting" = some session ∧ scopes session = [ssa.formulas] ∧
      (analyze ensured "counting" (Faltering.ranking ssa) []).outcome =
        .error (.failed (.solver (.backend "out of memory"))) ∧
      (analyze ensured "counting" (Faltering.ranking ssa) []).transcript.errors =
        [.backend "out of memory", .backend "pop failed"] ∧
      ((analyze ensured "counting" (Faltering.ranking ssa) []).store.held? "counting").map scopes =
        some [ssa.formulas]) ∧
    ∃ last, (Faltering.run.restarted Faltering.candidates).fixpoint Faltering.candidates =
        (.error (.solver (.backend "out of memory")), last) ∧
      scopes last.session = [[]] ∧ last.search.candidate? = none ∧
      last.search.untried = [1] ∧ last.search.rejected = [0] ∧ last.value = [false, false] := by
  obtain ⟨-, analyzes, -⟩ := restores_queries (δ := RankingTemplate)
    (ι := RankingSearch (List Script) ScriptedSession) (V := RankingValue) (φ := List Script)
    (σ := ScriptedSession)
  obtain ⟨restores, -, predicates⟩ := restores_queries (δ := PredicateTemplate)
    (ι := PredicateSearch) (V := PredicateValue) (φ := List Script) (σ := ScriptedSession)
  constructor
  · obtain ⟨ssa, ensured, count, loaded, loading, session, ensures, loads, held, holds⟩ :
        ∃ ssa ensured count loaded loading session,
        Faltering.store.ensure "counting" Ssa.counting [] = .ok (ssa, ensured) ∧
        ensured.load? "counting" = some (count, loaded, loading) ∧
        loaded.held? "counting" = some session ∧ scopes session = [ssa.formulas] :=
      ⟨_, _, _, _, _, _, rfl, rfl, rfl, rfl⟩
    have errors : (Faltering.store.ensure "counting" Ssa.counting []).toOption.map
        (fun (ssa, ensured) => (analyze ensured "counting" (Faltering.ranking ssa) []
          ).transcript.errors) = some [.backend "out of memory", .backend "pop failed"] := by
      decide +kernel
    rw [ensures] at errors
    have errors := Option.some.inj errors
    have restored := analyzes ensured loaded "counting" count loading session
      (Faltering.ranking ssa) [] loads held (by rw [holds]; exact List.cons_ne_nil _ _)
    have failed := (restored.first_error inferInstance (.backend "out of memory")).mpr (by
      dsimp only at errors
      rw [errors]
      rfl)
    refine ⟨ssa, ensured, count, loaded, loading, session, ensures, loads, held, holds, failed,
      errors, ?_⟩
    rw [restored.held_eq (by rw [failed]; exact fun _ => nofun), held, Option.map_some, holds]
  · obtain ⟨failed, untried, rejected, value⟩ :
        raised ((Faltering.run.restarted Faltering.candidates).fixpoint Faltering.candidates).1 =
          some (.backend "out of memory") ∧
        let last :=
          ((Faltering.run.restarted Faltering.candidates).fixpoint Faltering.candidates).2
        last.search.untried = [1] ∧ last.search.rejected = [0] ∧ last.value = [false, false] := by
      decide +kernel
    have restored := (restores Faltering.candidates (Faltering.run.restarted Faltering.candidates)
      (List.cons_ne_nil _ _)).2
    obtain ⟨returns, candidate, -, -⟩ := predicates Faltering.candidates Faltering.run
    exact ⟨_, Prod.ext (raised_eq_some_iff.mp failed) rfl, restored.scopes_eq returns, candidate,
      untried, rejected, value⟩

end TemplateAnalysis
