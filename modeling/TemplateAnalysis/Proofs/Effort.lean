import Mathlib.Algebra.Group.Nat.Defs
import TemplateAnalysis.Proofs.Advance
import TemplateAnalysis.Proofs.Template.Ranking
import TemplateAnalysis.Template.Predicates

/-! # How many queries an analysis poses

The number of queries of an analysis is bounded whatever the solver answers: verdicts, valuations
and failures may be right, wrong or contradictory. A predicate template tries each candidate at most
as often as there are candidates, since a line-up is repeated only if it has become shorter. In a
ranking template every round that changes something spends a search, or gives up a row for good: the
rows asked about are those that have not been given up. Refinements start over, and their number is
bounded as well.
-/

namespace TemplateAnalysis

namespace PredicateTemplate

instance : FlatDomain PredicateTemplate PredicateSearch PredicateValue where
  queries_refute _ _ row search value := by
    change Transcript.queries (refute row search value).transcript = 0
    unfold refute
    split <;> rfl
  queries_confirm _ search value := by
    change Transcript.queries (confirm search value).transcript = 0
    unfold confirm
    split
    · rfl
    · split <;> rfl
  queries_giveUp _ search value := by
    change Transcript.queries (giveUp search value).transcript = 0
    unfold giveUp
    split <;> rfl

theorem triangle_eq (n : Nat) : triangle n = n * (n + 1) / 2 := by
  have doubled : 2 * triangle n = n * (n + 1) := by
    induction n with
    | zero => rfl
    | succ n ih =>
      rw [triangle, Nat.mul_add, ih, ← Nat.add_mul, Nat.mul_comm]
  rw [← doubled, Nat.mul_div_cancel_left _ (by decide)]

/-- Calls change neither the rows nor the highest level, and do not go beyond it. -/
theorem bounded_of_leads {template later : PredicateTemplate} {search next : PredicateSearch}
    (leads : TemplateDomain.Leads PredicateValue template search later next)
    (bounded : template.level ≤ template.maxLevel) :
    later.rows = template.rows ∧ later.maxLevel = template.maxLevel ∧
      later.level ≤ template.maxLevel := by
  induction leads with
  | refine _ enlarged ih =>
    obtain ⟨rows, maxLevel, -⟩ := ih
    obtain ⟨larger, refined, same⟩ := Option.map_eq_some_iff.mp enlarged
    cases same
    unfold refine? at refined
    split at refined
    · cases refined
    · cases refined
      exact ⟨rows, maxLevel, by dsimp only; omega⟩
  | start => exact ⟨rfl, rfl, bounded⟩
  | _ => assumption

variable {σ : Type} [Solver σ]

/-- A line-up of `n` candidates takes at most `n + (n - 1) + … + 1` queries. -/
theorem advances_fixpoint (template : PredicateTemplate)
    (run : Run PredicateSearch PredicateValue σ) : ∃ queries ≤ triangle template.rows.length,
      Run.Advances queries template (run.restarted template) template
        ((run.restarted template).fixpoint template).2 := by
  have positive : ∀ run : Run PredicateSearch PredicateValue σ,
      TemplateDomain.hasWork PredicateTemplate PredicateValue run.search = true →
        0 < run.work template := by
    intro run working
    change (!run.search.untried.isEmpty) = true at working
    change 0 < work run.search
    cases untried : run.search.untried with
    | nil => simp [untried] at working
    | cons row rest => simp only [work, untried, List.length_cons]; omega
  obtain ⟨queries, bounded, advances⟩ := Run.advances_fixpoint template (Run.work template) positive
    (fun run next answered working => by
      have paid := Run.work_round_lt template run working (by rw [answered])
      rwa [answered] at paid)
    (run.restarted template)
  refine ⟨queries, Nat.le_trans bounded ?_, advances⟩
  have lined : template.lineUp.untried.length ≤ template.rows.length := by
    rw [lineUp, List.length_map]
    exact Nat.le_trans (List.length_filter_le ..) (by simp)
  change template.lineUp.untried.length + triangle (template.lineUp.untried.length + 0 - 1) ≤ _
  rw [Nat.add_zero, triangle_pred]
  exact triangle_mono lined

end PredicateTemplate

namespace RankingTemplate

variable {φ τ : Type} [Solver τ] [SessionSource φ τ]

instance : FlatDomain RankingTemplate (RankingSearch φ τ) RankingValue where
  queries_refute template m row search value := by
    have asked : ∀ constraint, (search.ask row constraint).transcript.queries = 0 := by
      intro constraint
      simp [RankingSearch.ask, Event.opensScope]
    change Transcript.queries (template.refute m row search value).transcript = 0
    have refuted := template.refuted_refute m row search value
    generalize template.refute m row search value = reply at refuted ⊢
    cases refuted with
    | failed _ _ isAsked | answered _ _ isAsked | unplaced _ _ isAsked =>
      rw [isAsked]
      exact asked _
    | _ => rfl
  queries_confirm _ _ _ := rfl
  queries_giveUp _ _ _ := rfl

/-- What is known of templates and searches that calls make of the template of some rows. -/
structure InBounds (limits : Limits) (rows : List TemplateRow) (template : RankingTemplate)
    (search : RankingSearch φ τ) : Prop where
  rows : template.rows = rows
  maxSearches : template.maxSearches = limits.rankingSearches
  maxComponents : template.maxComponents = max 1 limits.rankingComponents
  searches : search.searches ≤ limits.rankingSearches
  level : template.level + 1 ≤ max 1 limits.rankingComponents

section Searches

variable {template : RankingTemplate} {m : Valuation} {row : Nat} {search : RankingSearch φ τ}
  {value : RankingValue}

/-- A search is made only if one is left. -/
theorem searches_refute (m : Valuation) (row : Nat) (value : RankingValue)
    (spent : search.searches ≤ template.maxSearches) :
    (template.refute m row search value).search.searches ≤ template.maxSearches := by
  have refuted := template.refuted_refute m row search value
  generalize template.refute m row search value = reply at refuted ⊢
  cases refuted with
  | failed left _ isAsked | answered left _ isAsked | unplaced left _ isAsked =>
    rw [isAsked]
    exact left
  | _ => exact spent

theorem inBounds_of_leads {limits : Limits} {rows : List TemplateRow} {later : RankingTemplate}
    {next : RankingSearch φ τ} (start : InBounds limits rows template search)
    (leads : TemplateDomain.Leads RankingValue template search later next) :
    InBounds limits rows later next := by
  induction leads with
  | start => exact start
  | @refute later next _ m row value ih =>
    refine { ih with searches := ?_ }
    have spent : next.searches ≤ later.maxSearches := by rw [ih.maxSearches]; exact ih.searches
    have kept := searches_refute m row value spent
    rw [ih.maxSearches] at kept
    exact kept
  | @refine later larger next last _ enlarged ih =>
    change later.refine? next = _ at enlarged
    unfold refine? at enlarged
    split at enlarged
    · cases enlarged
    · next room =>
      cases enlarged
      have maxComponents := ih.maxComponents
      exact { ih with searches := Nat.zero_le _, level := by dsimp only; omega }
  | restart _ ih => exact { ih with searches := ih.searches }
  | beginRound _ ih => exact ih
  | confirm _ value ih => exact { ih with searches := ih.searches }
  | giveUp _ value ih => exact { ih with searches := ih.searches }
  | endRound _ ih => exact ih

/-- The searches that are left, and the rows that have not been given up. -/
def effort (template : RankingTemplate) (search : RankingSearch φ τ) (value : RankingValue) : Nat :=
  (template.maxSearches - search.searches) + value.countP (· != .unknown)

/-- A row has not been given up. -/
def IsLive (value : RankingValue) (row : Nat) : Prop :=
  ∃ rank, value[row]? = some rank ∧ rank ≠ .unknown

omit [Solver τ] [SessionSource φ τ] in
theorem countP_set_le_of_isLive (live : IsLive value row) (other : Rank) :
    (value.set row other).countP (· != .unknown) ≤ value.countP (· != .unknown) := by
  obtain ⟨rank, held, known⟩ := live
  obtain ⟨inside, rfl⟩ := List.getElem?_eq_some_iff.mp held
  have counted : 0 < value.countP (· != .unknown) :=
    List.countP_pos_iff.mpr ⟨_, List.getElem_mem inside, by simpa using known⟩
  rw [List.countP_set inside]
  simp only [bne_iff_ne, ne_eq, known, not_false_eq_true, if_true]
  split <;> omega

/-- A change of a row that has not been given up costs a search or the row, and is no change of
another row. -/
theorem effort_refute (live : IsLive value row) {changed : Bool}
    (answered : (template.refute m row search value).outcome = .ok changed) :
    template.effort (template.refute m row search value).search
        (template.refute m row search value).value < template.effort search value ∧
      ∀ other ≠ row, (template.refute m row search value).value[other]? = value[other]? := by
  have elsewhere : ∀ rank, ∀ other ≠ row, (value.set row rank)[other]? = value[other]? :=
    fun rank other apart => List.getElem?_set_ne apart.symm
  have refuted := template.refuted_refute m row search value
  generalize template.refute m row search value = reply at answered refuted ⊢
  cases refuted with
  | givenUp spent isUnknown =>
    obtain ⟨rank, held, known⟩ := live
    exact absurd (Option.some.inj (held.symm.trans isUnknown)) known
  | abandoned spent held known =>
    exact ⟨Nat.add_lt_add_left (countP_abandon_lt value row _ held known) _, elsewhere _⟩
  | answered left _ isAsked =>
    refine ⟨?_, elsewhere _⟩
    have rows := countP_set_le_of_isLive live
    rw [effort, isAsked, pursue, RankingSearch.searches_ask]
    refine Nat.add_lt_add_of_lt_of_le ?_ (rows _)
    omega
  | _ => cases answered

end Searches

section Rounds

variable {σ : Type} [Solver σ] {template : RankingTemplate}
  {run next : Run (RankingSearch φ τ) RankingValue σ}

theorem effort_refuteAll {rows : List (Nat × Symbol × Expr)}
    (distinct : rows.Pairwise fun first second => first.1 ≠ second.1)
    (live : ∀ entry ∈ rows, IsLive run.value entry.1) {changed : Bool}
    (answered : (run.refuteAll template rows).1 = .ok changed) :
    template.effort (run.refuteAll template rows).2.search (run.refuteAll template rows).2.value +
      changed.toNat ≤ template.effort run.search run.value := by
  induction rows generalizing run changed with
  | nil =>
    cases answered
    exact Nat.le_refl _
  | cons first rest ih =>
    obtain ⟨row, literal, violation⟩ := first
    obtain ⟨apart, distinct⟩ := List.pairwise_cons.mp distinct
    obtain ⟨here, live⟩ := List.forall_mem_cons.mp live
    unfold Run.refuteAll at answered ⊢
    split at answered
    · next holds =>
      rw [if_pos holds]
      split at answered
      · cases answered
      · next now told adopted =>
        obtain ⟨outcome, stands⟩ := Prod.mk.inj adopted
        obtain ⟨paid, elsewhere⟩ := effort_refute here outcome
        have still : ∀ entry ∈ rest, IsLive told.value entry.1 := by
          intro entry isEntry
          obtain ⟨rank, held, known⟩ := live entry isEntry
          rw [← stands]
          exact ⟨rank, (elsewhere _ (apart entry isEntry).symm).trans held, known⟩
        have owed := @ih told distinct still
        have lower : template.effort told.search told.value <
            template.effort run.search run.value := by
          rw [← stands]
          exact paid
        generalize Run.refuteAll template rest told = rested at answered owed ⊢
        obtain ⟨later, last⟩ := rested
        cases later with
        | error failure => cases answered
        | ok soon =>
          have bounded := owed rfl
          have once : changed.toNat ≤ 1 := Bool.toNat_le changed
          dsimp only at bounded ⊢
          omega
    · next fails =>
      rw [if_neg fails]
      exact ih distinct live answered

/-- The rows that are asked about have not been given up. -/
theorem isLive_of_mem_literals {value : RankingValue} {violations : List Expr}
    (violated : template.violations value = .ok violations) {entry : Nat × Symbol × Expr}
    (isEntry : entry ∈ Run.literals template.number violations) : IsLive value entry.1 := by
  obtain ⟨row, literal, violation⟩ := entry
  obtain ⟨found, notFalse, -⟩ := Run.mem_literals.mp isEntry
  obtain ⟨_, rank, -, held, rfl⟩ := row_of_violation violated found
  refine ⟨rank, held, ?_⟩
  rintro rfl
  cases notFalse

/-- A round that changes something costs a search or a row. -/
theorem effort_round (answered : run.round template = (.ok true, next)) :
    template.effort next.search next.value < template.effort run.search run.value := by
  obtain ⟨-, _, violations, -, violated, settled, told, search, value, -⟩ :=
    Run.round_cases .opened answered
  rw [search, value]
  cases told with
  | confirmed _ outcome => cases outcome
  | undecided outcome => cases outcome
  | @refuted solved _ unmoved _ outcome =>
    have live : ∀ entry ∈ Run.literals template.number violations,
        IsLive solved.value entry.1 := by
      rw [unmoved.value]
      exact fun entry => isLive_of_mem_literals violated
    have paid := effort_refuteAll (Run.literals_pairwise _ violations) live outcome
    rw [unmoved.search, unmoved.value] at paid
    exact paid

/-- An iteration takes a query for each search and each row, and a last one. -/
theorem advances_fixpoint (template : RankingTemplate)
    (run : Run (RankingSearch φ τ) RankingValue σ) :
    ∃ queries ≤ template.maxSearches + template.rows.length + 1,
      Run.Advances queries template (run.restarted template) template
        ((run.restarted template).fixpoint template).2 := by
  obtain ⟨queries, bounded, advances⟩ := Run.advances_fixpoint template
    (fun run => template.effort run.search run.value + 1) (fun _ _ => Nat.succ_pos _)
    (fun _ _ answered _ => Nat.succ_lt_succ (effort_round answered)) (run.restarted template)
  refine ⟨queries, Nat.le_trans bounded (Nat.succ_le_succ ?_), advances⟩
  refine Nat.add_le_add (Nat.sub_le _ _) (Nat.le_trans List.countP_le_length ?_)
  exact Nat.le_of_eq (List.length_map ..)

end Rounds

end RankingTemplate

/-- The limits are unsigned numbers of 32 bits. -/
structure Limits.AreWords (limits : Limits) : Prop where
  rankingComponents : limits.rankingComponents < 2 ^ 32
  rankingSearches : limits.rankingSearches < 2 ^ 32
  predicateLevel : limits.predicateLevel < 2 ^ 32

section Analyze

variable {φ σ ψ τ : Type} [Solver σ] [SessionSource φ σ] [Solver τ] [SessionSource ψ τ]

theorem PredicateTemplate.within_analyze
    (domain : Domain PredicateTemplate PredicateSearch PredicateValue) (store : Store φ σ)
    (name : String) (symbols : SymbolSet) :
    (analyze store name domain symbols).Within
      ((domain.template.maxLevel - domain.template.level + 1) *
        triangle domain.template.rows.length) domain := by
  refine TemplateAnalysis.within_analyze (fun run => Run.advances_explore
    (fun template => template.rows = domain.template.rows) _ ?_ ?_ rfl run) store name symbols
  · intro template run rows
    rw [← rows]
    exact advances_fixpoint template run
  · intro template larger search next rows enlarged
    obtain ⟨bigger, refined, same⟩ := Option.map_eq_some_iff.mp enlarged
    cases same
    unfold refine? at refined
    split at refined
    · cases refined
    · cases refined
      exact rows

theorem RankingTemplate.within_analyze {limits : Limits} {rows : List TemplateRow}
    {domain : Domain RankingTemplate (RankingSearch ψ τ) RankingValue}
    (bounds : InBounds limits rows domain.template domain.search) (store : Store φ σ)
    (name : String) (symbols : SymbolSet) :
    (analyze store name domain symbols).Within
      (max 1 limits.rankingComponents * (limits.rankingSearches + rows.length + 1)) domain := by
  have levels : domain.template.maxComponents - (domain.template.level + 1) + 1 ≤
      max 1 limits.rankingComponents := by
    have most := bounds.maxComponents
    have level := bounds.level
    omega
  refine TemplateAnalysis.within_analyze (fun run => ?_) store name symbols
  obtain ⟨queries, bounded, advances⟩ := Run.advances_explore
    (fun template : RankingTemplate => template.rows = rows ∧
      template.maxSearches = limits.rankingSearches) (limits.rankingSearches + rows.length + 1)
    (by
      rintro template run ⟨rows, searches⟩
      rw [← rows, ← searches]
      exact advances_fixpoint template run)
    (by
      rintro template larger search next ⟨rows, searches⟩ enlarged
      change template.refine? search = _ at enlarged
      unfold refine? at enlarged
      split at enlarged
      · cases enlarged
      · cases enlarged
        exact ⟨rows, searches⟩)
    ⟨bounds.rows, bounds.maxSearches⟩ run
  exact ⟨queries, Nat.le_trans bounded (Nat.mul_le_mul_right _ levels), advances⟩

/-- Whatever the sessions answer, the analysis of a procedure is over after a bounded number of
queries, with a domain in any state that calls can lead to. No call makes a counter exceed the limit
that it is compared with, so that the counters have the size of the limits. -/
theorem analyze_bounded {limits : Limits} (areWords : limits.AreWords) (number : Nat)
    (rows : List TemplateRow) (store : Store φ σ) (name : String) (symbols : SymbolSet) :
    (∀ (search : PredicateSearch)
        (domain : Domain PredicateTemplate PredicateSearch PredicateValue),
      TemplateDomain.Leads PredicateValue { PredicateTemplate.empty number limits with rows } search
        domain.template domain.search →
      (domain.template.level = 0 → (analyze store name domain symbols).Within
        ((limits.predicateLevel + 1) * (rows.length * (rows.length + 1) / 2)) domain) ∧
      domain.template.level ≤ limits.predicateLevel ∧ domain.template.level < 2 ^ 32) ∧
    ∀ (source : ψ) (domain : Domain RankingTemplate (RankingSearch ψ τ) RankingValue),
      TemplateDomain.Leads RankingValue (RankingTemplate.ofRows number limits rows) { source }
        domain.template domain.search →
      (analyze store name domain symbols).Within
        (max 1 limits.rankingComponents * (limits.rankingSearches + rows.length + 1)) domain ∧
      domain.search.searches ≤ limits.rankingSearches ∧ domain.search.searches < 2 ^ 32 ∧
      domain.template.level + 1 ≤ max 1 limits.rankingComponents ∧
      domain.template.level + 1 < 2 ^ 32 := by
  obtain ⟨components, searches, levels⟩ := areWords
  constructor
  · intro search domain leads
    obtain ⟨sameRows, maxLevel, level⟩ :=
      PredicateTemplate.bounded_of_leads leads (Nat.zero_le limits.predicateLevel)
    refine ⟨fun lowest => ?_, level, Nat.lt_of_le_of_lt level levels⟩
    have within := PredicateTemplate.within_analyze domain store name symbols
    rw [sameRows, maxLevel, lowest, PredicateTemplate.triangle_eq] at within
    exact within
  · intro source domain leads
    have fresh : RankingTemplate.InBounds limits rows (.ofRows number limits rows)
        ({ source } : RankingSearch ψ τ) :=
      ⟨rfl, rfl, rfl, Nat.zero_le _, Nat.le_max_left ..⟩
    have bounds := RankingTemplate.inBounds_of_leads fresh leads
    have level := bounds.level
    refine ⟨RankingTemplate.within_analyze bounds store name symbols, bounds.searches,
      Nat.lt_of_le_of_lt bounds.searches searches, level, ?_⟩
    omega

end Analyze

/-- A session that has a model for everything, in which all conditions are true. -/
structure Contrary where

namespace Contrary

instance : Solver Contrary where
  id _ := ⟨"contrary", 0⟩
  assert _ session := session
  push session := session
  pop session := (.ok (), session)
  solve session := (.ok .sat, session)
  valuation _ s :=
    match s.sort with
    | .bool => some (.bool true)
    | .int => some (.int 0)

instance : SessionSource Contrary Contrary where
  allocate _ source := (source, source)

/-- A store with such sessions. -/
def store : Store Contrary Contrary where
  source := ⟨⟩

/-- Two components, and three searches for each number of components. -/
def limits : Limits where
  rankingComponents := 2
  rankingSearches := 3

/-- Rows that say `0 ≤ x`. -/
def rows (ssa : Ssa) : List TemplateRow :=
  PredicateTemplate.candidateRows [.cmp .le (.int 0) (.var ⟨"x", .int⟩)] (ssa.observeSummary true) 0

/-- The predicate domain of these rows. -/
def predicates (ssa : Ssa) : Domain PredicateTemplate PredicateSearch PredicateValue :=
  Domain.start { PredicateTemplate.empty 0 limits with rows := rows ssa } {}

/-- The ranking domain of a procedure, with such sessions for the coefficients. -/
def ranking (ssa : Ssa) : Domain RankingTemplate (RankingSearch Contrary Contrary) RankingValue :=
  Domain.start (.ofRows 0 limits ssa.rankingRows) { source := ⟨⟩ }

end Contrary

/-- Sessions that always find a violation cannot keep an analysis going, and the ranking analysis of
the counting loop takes all the queries that it may. -/
theorem analyze_bounded_contrary : ∃ ssa ensured,
    Contrary.store.ensure "counting" Ssa.counting [] = .ok (ssa, ensured) ∧
    Contrary.limits.AreWords ∧
    (analyze ensured "counting" (Contrary.predicates ssa) []).Within 3 (Contrary.predicates ssa) ∧
    (analyze ensured "counting" (Contrary.ranking ssa) []).Within 10 (Contrary.ranking ssa) ∧
    (analyze ensured "counting" (Contrary.ranking ssa) []).transcript.queries = 10 := by
  have areWords : Contrary.limits.AreWords := ⟨by decide, by decide, by decide⟩
  obtain ⟨ssa, ensured, ensures, two, one⟩ : ∃ ssa ensured,
      Contrary.store.ensure "counting" Ssa.counting [] = .ok (ssa, ensured) ∧
      (Contrary.rows ssa).length = 2 ∧ ssa.rankingRows.length = 1 := ⟨_, _, rfl, rfl, rfl⟩
  have attained : (Contrary.store.ensure "counting" Ssa.counting []).toOption.any
      (fun (ssa, ensured) => (analyze ensured "counting" (Contrary.ranking ssa) []
        ).transcript.queries == 10) = true := by
    decide +kernel
  rw [ensures] at attained
  have predicates := ((analyze_bounded areWords 0 (Contrary.rows ssa) ensured "counting" []
    (ψ := Contrary)).1 {} (Contrary.predicates ssa) .start).1 rfl
  have ranking := ((analyze_bounded areWords 0 ssa.rankingRows ensured "counting" []).2 ⟨⟩
    (Contrary.ranking ssa) .start).1
  rw [two] at predicates
  rw [one] at ranking
  exact ⟨ssa, ensured, ensures, areWords, predicates, ranking, eq_of_beq attained⟩

end TemplateAnalysis
