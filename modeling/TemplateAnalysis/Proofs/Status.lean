import TemplateAnalysis.Proofs.Answers
import TemplateAnalysis.Proofs.Calls
import TemplateAnalysis.Proofs.Effort
import TemplateAnalysis.Proofs.Solver.Certified
import TemplateAnalysis.Proofs.Solver.Scopes

/-! # What the status of a result says

The status of a result says exactly what happened in its analysis. It is unknown if some query of
the analysis stayed open, whether it was posed to the session of the procedure or to one of the
domain's own, and for whichever template. Otherwise the analysis of ranking functions is exhausted
if it had to give up some row with as many components as are allowed, and that of predicates always
converges, at the lowest level at which all rows take part that may. A ranking function has one
component more than the level says, and every component has a coefficient for each variable.
-/

namespace TemplateAnalysis

/-- A status that is replaced if some query stayed open. -/
theorem reported_iff {transcript : Transcript} {status reported : Status}
    (known : status ≠ .unknown)
    (replaced : reported = if transcript.openAnswers = 0 then status else .unknown) :
    (reported = .unknown ↔ ∃ event ∈ transcript, event.action = .solved (.ok .unknown)) ∧
      (reported ≠ .unknown → reported = status) := by
  have quiet_iff : transcript.openAnswers = 0 ↔ _ := Transcript.openAnswers_eq_zero_iff
  subst replaced
  split
  · next quiet =>
    refine ⟨⟨fun isUnknown => absurd isUnknown known, ?_⟩, fun _ => rfl⟩
    rintro ⟨event, isEvent, stays⟩
    exact absurd stays (quiet_iff.mp quiet event isEvent)
  · next notQuiet =>
    refine ⟨⟨fun _ => ?_, fun _ => rfl⟩, fun other => absurd rfl other⟩
    by_contra none
    refine notQuiet (quiet_iff.mpr fun event isEvent stays => none ⟨event, isEvent, stays⟩)

section Explore

variable {δ ι V φ σ : Type} [TemplateDomain δ ι V]

/-- How an exploration ends with a status. -/
inductive Run.EndsWith (template : δ) (last : Run ι V σ) : Status → Prop
  | converged (satisfied : TemplateDomain.needsRefinement ι template last.value = false) :
      EndsWith template last .converged
  | exhausted (needs : TemplateDomain.needsRefinement ι template last.value = true)
      (most : TemplateDomain.refine V template last.search = none) :
      EndsWith template last .exhausted

theorem Run.EndsWith.known {template : δ} {last : Run ι V σ} {status : Status}
    (ends : Run.EndsWith template last status) : status ≠ .unknown := by
  cases ends <;> nofun

variable [FiniteDomain δ ι V] [Solver σ] [SessionSource φ σ]

/-- An exploration with a status ends with a fixpoint of its last template. What refinements keep
holds of this template. -/
theorem Run.explore_cases (Inv : δ → Prop)
    (enlarges : ∀ (template larger : δ) (last : Run ι V σ) (search : ι), Inv template →
      TemplateDomain.needsRefinement ι template last.value = true →
      TemplateDomain.refine V template last.search = some (larger, search) → Inv larger)
    {template larger : δ} {run last : Run ι V σ} {status : Status} (start : Inv template)
    (explored : run.explore template = (.ok status, larger, last)) :
    Inv larger ∧ Run.EndsWith larger last status ∧
      ∃ begun : Run ι V σ, (begun.restarted larger).fixpoint larger = (.ok (), last) := by
  have ends := Run.explore_ends (fun template (_ : Run ι V σ) => Inv template)
    (fun outcome larger last => ∀ status, outcome = .ok status →
      Inv larger ∧ Run.EndsWith larger last status ∧
        ∃ begun : Run ι V σ, (begun.restarted larger).fixpoint larger = (.ok (), last))
    (fun _ _ _ _ _ _ _ => nofun)
    (by
      rintro template run last inv fixed satisfied _ ⟨⟩
      exact ⟨inv, .converged satisfied, run, fixed⟩)
    (by
      rintro template run last inv fixed needs most _ ⟨⟩
      exact ⟨inv, .exhausted needs most, run, fixed⟩)
    (fun template larger _ last search inv _ needs enlarged =>
      enlarges template larger last search inv needs enlarged) run start
  rw [explored] at ends
  exact ends status rfl

omit [FiniteDomain δ ι V] [Solver σ] in
/-- A conclusion takes over the value and the level, and the status unless some query was counted as
open since the start. -/
theorem status_conclude {name : String} {start : ι} {symbols : SymbolSet} {status : Status}
    {template : δ} {run : Run ι V σ} {result : AnalysisResult V}
    (concluded : conclude name start symbols status template run = .ok result) :
    result.value = run.value ∧ result.level = TemplateDomain.level ι V template ∧
      result.status =
        if run.undecided + (TemplateDomain.openAnswers δ V run.search -
          TemplateDomain.openAnswers δ V start) = 0 then status else .unknown := by
  unfold conclude at concluded
  cases projected : Domain.project (⟨template, run.search, run.value⟩ : Domain δ ι V) symbols with
  | error failure => simp [bind, Except.bind, projected] at concluded
  | ok invariant =>
    simp only [bind, Except.bind, projected, pure, Except.pure, Except.ok.injEq] at concluded
    subst concluded
    exact ⟨rfl, rfl, rfl⟩

/-- A result takes over the value and the level with which an exploration ends, and its status
unless some query of the analysis stayed open. -/
theorem explore_of_result [CountingDomain δ ι V] {store : Store φ σ} {name : String}
    {domain : Domain δ ι V} {symbols : SymbolSet} {result : AnalysisResult V}
    (answered : (analyze store name domain symbols).outcome = .ok result) :
    ∃ (status : Status) (larger : δ) (run last : Run ι V σ),
      run.explore domain.template = (.ok status, larger, last) ∧
      result.value = last.value ∧ result.level = TemplateDomain.level ι V larger ∧
      (result.status = .unknown ↔ ∃ event ∈ (analyze store name domain symbols).transcript,
        event.action = .solved (.ok .unknown)) ∧
      (result.status ≠ .unknown → result.status = status) := by
  cases form : store.get? name with
  | none => simp [analyze, Store.load?, form] at answered
  | some ssa =>
    obtain ⟨outcome, larger, last, explored, ended, -⟩ := analyze_of_form form domain symbols
    obtain ⟨loading, -, quiet, transcript⟩ := transcript_analyze form domain symbols
    obtain ⟨asked, tells, -⟩ := Run.reports_explore domain.template (⟨domain.search, domain.value,
      ssa.pendingFormulas.foldl (fun session formula => Solver.assert formula session)
        (store.sessionOf name), 0, 0, []⟩ : Run ι V σ)
    rw [explored] at tells transcript
    rw [ended] at answered
    cases outcome with
    | error failure => cases answered
    | ok status =>
      change (conclude name domain.search symbols status larger last).mapError _ = _ at answered
      cases concluded : conclude name domain.search symbols status larger last with
      | error failure =>
        rw [concluded] at answered
        cases answered
      | ok found =>
        rw [concluded] at answered
        cases answered
        obtain ⟨value, level, taken⟩ := status_conclude concluded
        obtain ⟨-, ends, -⟩ := Run.explore_cases (fun _ => True) (fun _ _ _ _ _ _ _ => trivial)
          trivial explored
        refine ⟨status, larger, _, last, explored, value, level, reported_iff ends.known ?_⟩
        -- what the run and the domain have counted is what the transcript says
        have counted := tells.counted inferInstance
        have grown := tells.openAnswers inferInstance
        rw [taken, transcript, tells.transcript, List.nil_append, Transcript.openAnswers_append,
          quiet]
        dsimp only at counted grown
        congr 2
        omega

end Explore

namespace RankingTemplate

/-- The templates that can be made within some limits: rows are added and components allowed, in any
order. -/
inductive Made (limits : Limits) : RankingTemplate → Prop
  | ofRows (number : Nat) (rows : List TemplateRow) : Made limits (.ofRows number limits rows)
  | addRow {template : RankingTemplate} (made : Made limits template) (row : TemplateRow) :
      Made limits (template.addRow row)
  | refine {φ τ : Type} {template larger : RankingTemplate} {search next : RankingSearch φ τ}
      (made : Made limits template) (enlarged : template.refine? search = some (larger, next)) :
      Made limits larger

section Templates

variable {φ τ : Type} {limits : Limits} {template larger : RankingTemplate}
  {search next : RankingSearch φ τ}

/-- A refinement allows one component more, if there may be more. -/
theorem refine?_eq_some (enlarged : template.refine? search = some (larger, next)) :
    template.level + 1 < template.maxComponents ∧
      larger = { template with level := template.level + 1 } := by
  unfold refine? at enlarged
  split at enlarged
  · cases enlarged
  · next room =>
    cases enlarged
    exact ⟨by omega, rfl⟩

theorem refine?_eq_none (most : template.refine? search = none) :
    template.maxComponents ≤ template.level + 1 := by
  unfold refine? at most
  split at most
  · assumption
  · cases most

theorem Made.bounded (made : Made limits template) :
    template.maxComponents = max 1 limits.rankingComponents ∧
      template.level + 1 ≤ template.maxComponents := by
  induction made with
  | ofRows number rows => exact ⟨rfl, Nat.le_max_left ..⟩
  | addRow _ row ih => exact ih
  | refine _ enlarged ih =>
    obtain ⟨room, rfl⟩ := refine?_eq_some enlarged
    exact ⟨ih.1, room⟩

end Templates

/-- A tuple has as many components as the template allows, each with a coefficient for every variable
of the row. -/
def Fits (template : RankingTemplate) (row : TemplateRow) : Rank → Prop
  | .lexicographic tuple => tuple.length = template.components ∧
      ∀ component ∈ tuple, component.length = row.rankingVars.length
  | _ => True

/-- The value has an entry for every row, and it fits the row. -/
structure Shaped (template : RankingTemplate) (value : RankingValue) : Prop where
  length : value.length = template.rows.length
  fits : ∀ (i : Nat) (row : TemplateRow) (rank : Rank), template.rows[i]? = some row →
    value[i]? = some rank → template.Fits row rank

namespace Shaped

variable {template : RankingTemplate} {value : RankingValue}

theorem newValue (template : RankingTemplate) : template.Shaped template.newValue where
  length := List.length_map _
  fits i row rank isRow isRank := by
    rw [RankingTemplate.newValue, List.getElem?_map, isRow] at isRank
    cases isRank
    trivial

theorem set (shaped : template.Shaped value) {i : Nat} {rank : Rank}
    (fits : ∀ row, template.rows[i]? = some row → template.Fits row rank) :
    template.Shaped (value.set i rank) where
  length := by rw [List.length_set, shaped.length]
  fits j row other isRow isOther := by
    by_cases same : i = j
    · subst same
      obtain ⟨inside, rfl⟩ := List.getElem?_eq_some_iff.mp isOther
      rw [List.getElem_set_self]
      exact fits row isRow
    · rw [List.getElem?_set_ne same] at isOther
      exact shaped.fits j row other isRow isOther

end Shaped

/-- What a search for coefficients finds fits the row. -/
theorem fits_rankFound (template : RankingTemplate) (i : Nat) (row : TemplateRow)
    (found : Valuation) (verdict : Verdict) :
    template.Fits row (template.rankFound i row.rankingVars.length found verdict) := by
  cases verdict with
  | sat =>
    constructor
    · rw [tupleOf, List.length_map, List.length_range]
    · intro component isComponent
      obtain ⟨j, -, rfl⟩ := List.mem_map.mp isComponent
      rw [List.length_map, List.length_range]
  | unsat => trivial
  | unknown => trivial

variable {φ τ σ : Type} [Solver τ] [SessionSource φ τ] [Solver σ]

theorem Shaped.refute {template : RankingTemplate} {value : RankingValue}
    (shaped : template.Shaped value) (m : Valuation) (row : Nat) (search : RankingSearch φ τ) :
    template.Shaped (template.refute m row search value).value := by
  have refuted := template.refuted_refute m row search value
  generalize template.refute m row search value = reply at refuted ⊢
  cases refuted with
  | abandoned => exact shaped.set fun _ _ => trivial
  | answered _ isRow =>
    refine shaped.set fun other isOther => ?_
    obtain rfl := Option.some.inj (isRow.symm.trans isOther)
    exact fits_rankFound ..
  | _ => exact shaped

theorem keeps_shaped (template : RankingTemplate) :
    TemplateDomain.Keeps template (fun (_ : RankingSearch φ τ) value => template.Shaped value)
      (fun _ value => template.Shaped value) where
  beginRound shaped := shaped
  refute {search _} shaped m row := shaped.refute m row search
  confirm shaped := shaped
  giveUp shaped := shaped
  endRound shaped := shaped

/-- With which template, value and status an exploration of ranking functions ends. -/
theorem explore_cases {limits : Limits} {template larger : RankingTemplate}
    {run last : Run (RankingSearch φ τ) RankingValue σ} {status : Status}
    (made : template.Made limits) (explored : run.explore template = (.ok status, larger, last)) :
    larger.rows = template.rows ∧ larger.Shaped last.value ∧
      ((status = .converged ∧ .unknown ∉ last.value) ∨
        (status = .exhausted ∧ .unknown ∈ last.value ∧
          larger.level + 1 = max 1 limits.rankingComponents)) := by
  have needs_iff : TemplateDomain.needsRefinement (RankingSearch φ τ) larger last.value = true ↔
      .unknown ∈ last.value := by
    change last.value.any (· == .unknown) = true ↔ _
    simp
  obtain ⟨⟨rows, made⟩, ends, begun, fixed⟩ := Run.explore_cases
    (fun larger => larger.rows = template.rows ∧ larger.Made limits)
    (by
      rintro template larger last search ⟨rows, made⟩ - enlarged
      obtain ⟨-, same⟩ := refine?_eq_some enlarged
      exact ⟨by rw [same]; exact rows, made.refine enlarged⟩)
    ⟨rfl, made⟩ explored
  have start : (begun.restarted larger).Stands fun _ value => larger.Shaped value :=
    Shaped.newValue larger
  have shaped := Run.stands_fixpoint (keeps_shaped larger) start (by rw [fixed]; exact returns_ok _)
  rw [fixed] at shaped
  refine ⟨rows, shaped, ?_⟩
  cases ends with
  | converged satisfied =>
    refine .inl ⟨rfl, fun isUnknown => ?_⟩
    rw [needs_iff.mpr isUnknown] at satisfied
    cases satisfied
  | exhausted needs most =>
    obtain ⟨maxComponents, level⟩ := made.bounded
    have reached := refine?_eq_none most
    exact .inr ⟨rfl, needs_iff.mp needs, by omega⟩

end RankingTemplate

namespace PredicateTemplate

/-- The highest tier of a row. -/
def highestTier (template : PredicateTemplate) : Nat :=
  template.rows.foldr (fun row highest => max row.tier highest) 0

theorem lt_highestTier_iff {template : PredicateTemplate} {n : Nat} :
    n < template.highestTier ↔ ∃ row ∈ template.rows, n < row.tier := by
  unfold highestTier
  induction template.rows with
  | nil => simp
  | cons row rest ih =>
    simp only [List.foldr_cons, List.mem_cons, exists_eq_or_imp, ← ih]
    omega

/-- A larger template says more exactly if some row takes part at a higher level that is allowed. -/
theorem needsRefinement_iff {template : PredicateTemplate} :
    template.needsRefinement = true ↔
      template.level < min template.maxLevel template.highestTier := by
  rw [Nat.lt_min, lt_highestTier_iff]
  simp [needsRefinement]

variable {σ : Type} [Solver σ]

/-- With which template and status an exploration of predicates ends. -/
theorem explore_cases {template larger : PredicateTemplate}
    {run last : Run PredicateSearch PredicateValue σ} {status : Status}
    (lowest : template.level = 0) (explored : run.explore template = (.ok status, larger, last)) :
    status = .converged ∧ larger.level = min template.maxLevel template.highestTier := by
  obtain ⟨⟨rows, maxLevel, level⟩, ends, -⟩ := Run.explore_cases
    (fun larger => larger.rows = template.rows ∧ larger.maxLevel = template.maxLevel ∧
      larger.level ≤ min template.maxLevel template.highestTier)
    (by
      rintro smaller larger last search ⟨rows, maxLevel, level⟩ needs enlarged
      have below := needsRefinement_iff.mp needs
      rw [highestTier, rows, maxLevel] at below
      obtain ⟨bigger, refined, same⟩ := Option.map_eq_some_iff.mp enlarged
      cases same
      unfold refine? at refined
      split at refined
      · cases refined
      · cases refined
        exact ⟨rows, maxLevel, below⟩)
    ⟨rfl, rfl, by omega⟩ explored
  have needs_iff : larger.needsRefinement = true ↔
      larger.level < min template.maxLevel template.highestTier := by
    rw [needsRefinement_iff, highestTier, rows, maxLevel]
    rfl
  cases ends with
  | converged satisfied =>
    refine ⟨rfl, Nat.le_antisymm level (Nat.le_of_not_lt fun below => ?_)⟩
    rw [show larger.needsRefinement = false from satisfied] at needs_iff
    cases needs_iff.mpr below
  | exhausted needs most =>
    -- a level that is allowed is never refused
    have below := needs_iff.mp needs
    have refused : larger.refine? = none := Option.map_eq_none_iff.mp most
    unfold refine? at refused
    split at refused
    · next reached => omega
    · cases refused

end PredicateTemplate

section Analyze

variable {φ σ ψ τ : Type} [Solver σ] [SessionSource φ σ] [Solver τ] [SessionSource ψ τ]

/-- The status of a result says exactly what happened, whatever the sessions answered: whether some
query stayed open, and otherwise whether ranking functions are missing with as many components as
are allowed; predicates always converge. Every ranking function has one component more than the
level, and each component a coefficient for every variable. -/
theorem status_exact (limits : Limits) (store : Store φ σ) (name : String)
    (symbols : SymbolSet) :
    (∀ (domain : Domain RankingTemplate (RankingSearch ψ τ) RankingValue)
        (result : AnalysisResult RankingValue), domain.template.Made limits →
      (analyze store name domain symbols).outcome = .ok result →
      (result.status = .unknown ↔ ∃ event ∈ (analyze store name domain symbols).transcript,
        event.action = .solved (.ok .unknown)) ∧
      (result.status ≠ .unknown →
        (result.status = .exhausted ↔ .unknown ∈ result.value) ∧
        (result.status = .exhausted → result.level + 1 = max 1 limits.rankingComponents) ∧
        (result.status = .converged ↔ .unknown ∉ result.value)) ∧
      result.value.length = domain.template.rows.length ∧
      ∀ (i : Nat) (row : TemplateRow) (tuple : List (List Int64)),
        domain.template.rows[i]? = some row → result.value[i]? = some (.lexicographic tuple) →
        tuple.length = result.level + 1 ∧
          ∀ component ∈ tuple, component.length = row.rankingVars.length) ∧
    ∀ (domain : Domain PredicateTemplate PredicateSearch PredicateValue)
        (result : AnalysisResult PredicateValue),
      (analyze store name domain symbols).outcome = .ok result →
      (result.status = .unknown ↔ ∃ event ∈ (analyze store name domain symbols).transcript,
        event.action = .solved (.ok .unknown)) ∧
      (domain.template.level = 0 → (result.status ≠ .unknown → result.status = .converged) ∧
        result.level = min domain.template.maxLevel domain.template.highestTier) := by
  constructor
  · intro domain result made answered
    obtain ⟨status, larger, run, last, explored, value, level, unknown_iff, taken⟩ :=
      explore_of_result answered
    obtain ⟨rows, shaped, ended⟩ := RankingTemplate.explore_cases made explored
    refine ⟨unknown_iff, fun decided => ?_, ?_, fun i row tuple isRow isTuple => ?_⟩
    · rw [taken decided, value, level]
      rcases ended with ⟨rfl, none⟩ | ⟨rfl, some, most⟩
      · exact ⟨⟨nofun, fun isUnknown => absurd isUnknown none⟩, nofun, fun _ => none, fun _ => rfl⟩
      · exact ⟨⟨fun _ => some, fun _ => rfl⟩, fun _ => most, nofun, fun none => absurd some none⟩
    · rw [value, shaped.length, rows]
    · rw [← rows] at isRow
      rw [value] at isTuple
      rw [level]
      exact shaped.fits i row _ isRow isTuple
  · intro domain result answered
    obtain ⟨status, larger, run, last, explored, -, level, unknown_iff, taken⟩ :=
      explore_of_result answered
    refine ⟨unknown_iff, fun lowest => ?_⟩
    obtain ⟨rfl, highest⟩ := PredicateTemplate.explore_cases lowest explored
    exact ⟨taken, level.trans highest⟩

end Analyze

namespace Contrary

/-- Rows that say `0 ≤ x`, the first of tier 0 and the second of tier 2. -/
def tiered (ssa : Ssa) : Domain PredicateTemplate PredicateSearch PredicateValue :=
  Domain.start
    { number := 0
      rows := (rows ssa).zipIdx.map fun (row, i) => { row with tier := 2 * i }
      maxLevel := 3 } {}

end Contrary

namespace Hesitant

/-- A store with sessions that leave every query open. -/
def store : Store (List Script) ScriptedSession where
  source := []

/-- The ranking domain of a procedure, with such sessions for the coefficients. -/
def ranking (ssa : Ssa) :
    Domain RankingTemplate (RankingSearch (List Script) ScriptedSession) RankingValue :=
  Domain.start (.ofRows 0 {} ssa.rankingRows) { source := [] }

end Hesitant

/-- Sessions that always find a violation exhaust the components of the counting loop, and let the
candidates converge at the highest tier; a session that leaves its query open makes the status
unknown. -/
theorem status_exact_contrary :
    (∃ ssa ensured ranked selected,
      Contrary.store.ensure "counting" Ssa.counting [] = .ok (ssa, ensured) ∧
      (analyze ensured "counting" (Contrary.ranking ssa) []).outcome = .ok ranked ∧
      ranked.status = .exhausted ∧ .unknown ∈ ranked.value ∧ ranked.level + 1 = 2 ∧
      (analyze ensured "counting" (Contrary.tiered ssa) []).outcome = .ok selected ∧
      selected.status = .converged ∧ selected.level = 2) ∧
    ∃ ssa ensured result, Hesitant.store.ensure "counting" Ssa.counting [] = .ok (ssa, ensured) ∧
      (analyze ensured "counting" (Hesitant.ranking ssa) []).outcome = .ok result ∧
      result.status = .unknown ∧
      ∃ event ∈ (analyze ensured "counting" (Hesitant.ranking ssa) []).transcript,
        event.action = .solved (.ok .unknown) := by
  constructor
  · obtain ⟨ssa, ensured, ensures, highest⟩ : ∃ ssa ensured,
        Contrary.store.ensure "counting" Ssa.counting [] = .ok (ssa, ensured) ∧
        (Contrary.tiered ssa).template.highestTier = 2 := ⟨_, _, rfl, rfl⟩
    have ends : (Contrary.store.ensure "counting" Ssa.counting []).toOption.any
        (fun (ssa, ensured) =>
          (analyze ensured "counting" (Contrary.ranking ssa) []).outcome.toOption.any
            (·.status == .exhausted) &&
          (analyze ensured "counting" (Contrary.tiered ssa) []).outcome.toOption.any
            (·.status != .unknown)) = true := by
      decide +kernel
    rw [ensures] at ends
    obtain ⟨exhausts, decides⟩ := Bool.and_eq_true_iff.mp ends
    obtain ⟨ranked, ranks, exhausted⟩ := exists_ok_of_any exhausts
    obtain ⟨selected, selects, decided⟩ := exists_ok_of_any decides
    have exhausted := eq_of_beq exhausted
    obtain ⟨-, given, -⟩ := (status_exact Contrary.limits ensured "counting" []).1
      (Contrary.ranking ssa) ranked (.ofRows 0 ssa.rankingRows) ranks
    obtain ⟨exhausted_iff, most, -⟩ := given (by rw [exhausted]; nofun)
    obtain ⟨-, lowest⟩ := (status_exact {} ensured "counting" [] (ψ := Contrary)).2
      (Contrary.tiered ssa) selected selects
    obtain ⟨converges, level⟩ := lowest rfl
    rw [highest] at level
    exact ⟨ssa, ensured, ranked, selected, ensures, ranks, exhausted, exhausted_iff.mp exhausted,
      most exhausted, selects, converges (by simpa using decided), level⟩
  · obtain ⟨ssa, ensured, ensures⟩ : ∃ ssa ensured,
        Hesitant.store.ensure "counting" Ssa.counting [] = .ok (ssa, ensured) := ⟨_, _, rfl⟩
    have ends : (Hesitant.store.ensure "counting" Ssa.counting []).toOption.any
        (fun (ssa, ensured) =>
          (analyze ensured "counting" (Hesitant.ranking ssa) []).outcome.toOption.any
            (·.status == .unknown)) = true := by
      decide +kernel
    rw [ensures] at ends
    have stays : (analyze ensured "counting" (Hesitant.ranking ssa) []).outcome.toOption.any
      (·.status == .unknown) = true := ends
    obtain ⟨result, answered, isUnknown⟩ := exists_ok_of_any stays
    have isUnknown := eq_of_beq isUnknown
    obtain ⟨unknown_iff, -⟩ := (status_exact {} ensured "counting" []).1 (Hesitant.ranking ssa)
      result (.ofRows 0 ssa.rankingRows) answered
    exact ⟨ssa, ensured, result, ensures, answered, isUnknown, unknown_iff.mp isUnknown⟩

end TemplateAnalysis
