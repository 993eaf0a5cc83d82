import TemplateAnalysis.Proofs.Template.Selection

/-! # What a query says about a candidate

A query about a candidate asks for a transition that violates it although all that is selected, and
the candidate itself, is assumed before the transition. A session that decides every query finds
one exactly if there is one, so a round against it selects the first of the untried candidates
exactly if it cannot be refuted. The question is asked through the literal of the row, which counts
as one more formula that is held.
-/

namespace TemplateAnalysis

namespace PredicateTemplate

/-- The transitions that violate a row, if it is checked. -/
def notPost (row : TemplateRow) : Expr :=
  if row.isChecked then violation row else .bool false

/-- In some model of what is held, the row is violated although the chosen rows and the row itself
are true before the transition. -/
def Refutable (template : PredicateTemplate) (held : List Expr) (chosen : Set Nat) (i : Nat)
    (row : TemplateRow) : Prop :=
  ∃ m : Assignment, m.Satisfies held ∧ template.Assumes (fun j => j ∈ chosen ∨ j = i) m ∧
    m.holds (notPost row) = true

/-- The more is assumed the less can be refuted. -/
theorem Refutable.anti {template : PredicateTemplate} {formulas : List Expr}
    {chosen larger : Set Nat} {i : Nat} {row : TemplateRow}
    (refutable : template.Refutable formulas larger i row) (subset : chosen ⊆ larger) :
    template.Refutable formulas chosen i row := by
  obtain ⟨m, satisfies, assumes, violated⟩ := refutable
  refine ⟨m, satisfies, fun j other isRow isChosen => ?_, violated⟩
  exact assumes j other isRow (isChosen.imp_left fun member => subset member)

/-- The rows that a value selects. -/
def selected (value : PredicateValue) : Set Nat := {i | value[i]? = some true}

section Queries

variable {template : PredicateTemplate} {search : PredicateSearch} {value : PredicateValue}
  {i : Nat} {row : TemplateRow}

/-- What is assumed in a query is true where the rows selected or under test are. -/
theorem exists_assumption (length : value.length = template.rows.length)
    (tested : search.candidate? = some i) :
    ∃ assumption, template.assumption search value = .ok assumption ∧ ∀ m : Assignment,
      m.holds assumption = true ↔ template.Assumes (fun j => j ∈ selected value ∨ j = i) m := by
  let part : TemplateRow × Nat → Expr := fun pair =>
    if value[pair.2]? = some true ∨ pair.2 = i then statementBefore pair.1 else .bool true
  refine ⟨Expr.conj ((template.rows.zipIdx.filter fun pair => pair.1.isAssumed).map part), ?_,
    fun m => ?_⟩
  · rw [← Template.conjParts_map_ok, assumption, List.map_map]
    congr 1
    apply List.map_congr_left
    rintro ⟨row, j⟩ member
    have isRow := List.mem_zipIdx_iff_getElem?.mp (List.mem_filter.mp member).1
    have inside : j < value.length := by
      rw [length]
      exact (List.getElem?_eq_some_iff.mp isRow).1
    simp only [List.getElem?_eq_getElem inside, tested, part, Function.comp_apply]
    split <;> split <;> simp_all
  · rw [m.holds_iff, Expr.eval_conj_iff, List.forall_mem_map]
    simp only [List.mem_filter, List.mem_zipIdx_iff_getElem?, Prod.forall, part, Assumes]
    constructor
    · intro parts j row isRow isChosen isAssumed
      have isTrue := parts row j ⟨isRow, isAssumed⟩
      rw [if_pos (by exact isChosen)] at isTrue
      exact m.holds_iff.mpr isTrue
    · rintro assumes row j ⟨isRow, isAssumed⟩
      split
      · next isChosen => exact m.holds_iff.mp (assumes j row isRow isChosen isAssumed)
      · rfl

theorem getElem?_violations (j : Nat) :
    (template.violations search)[j]? = template.rows[j]?.map fun row =>
      if search.candidate? = some j then notPost row else .bool false := by
  rw [violations, List.getElem?_map, List.getElem?_zipIdx, Option.map_map]
  refine congrArg (Option.map · _) (funext fun row => ?_)
  simp only [Function.comp_apply, Nat.zero_add, notPost, violation]
  cases row.shape with
  | predicate pre post => cases row.isChecked <;> simp
  | ranking vars => simp

/-- The question is about the row under test only. -/
theorem literals_violations (isRow : template.rows[i]? = some row)
    (tested : search.candidate? = some i) :
    Run.literals template.number (template.violations search) =
      if (notPost row).isFalse then []
      else [(i, (Name.violation template.number i).bool, notPost row)] := by
  have only : ∀ entry ∈ Run.literals template.number (template.violations search),
      entry = (i, (Name.violation template.number i).bool, notPost row) ∧
        (notPost row).isFalse = false := by
    rintro ⟨j, literal, e⟩ isEntry
    obtain ⟨violated, notFalse, rfl⟩ := Run.mem_literals.mp isEntry
    rw [getElem?_violations, Option.map_eq_some_iff] at violated
    obtain ⟨other, isOther, rfl⟩ := violated
    by_cases same : i = j
    · subst same
      obtain rfl : row = other := Option.some.inj (isRow.symm.trans isOther)
      rw [if_pos tested] at notFalse ⊢
      exact ⟨rfl, notFalse⟩
    · rw [if_neg (by simp [tested, same])] at notFalse
      cases notFalse
  have distinct := Run.literals_pairwise template.number (template.violations search)
  cases isFalse : (notPost row).isFalse with
  | true =>
    refine List.eq_nil_iff_forall_not_mem.mpr fun entry isEntry => ?_
    cases isFalse.symm.trans (only entry isEntry).2
  | false =>
    have isEntry : (i, (Name.violation template.number i).bool, notPost row) ∈
        Run.literals template.number (template.violations search) := by
      refine Run.mem_literals.mpr ⟨?_, isFalse, rfl⟩
      rw [getElem?_violations, isRow, Option.map_some, if_pos tested]
    generalize Run.literals template.number (template.violations search) = entries at *
    match entries with
    | [entry] => rw [(only entry List.mem_cons_self).1]; rfl
    | first :: second :: rest =>
      obtain ⟨rfl, -⟩ := only first List.mem_cons_self
      obtain ⟨rfl, -⟩ := only second (by simp)
      exact absurd rfl (List.rel_of_pairwise_cons distinct List.mem_cons_self)

/-- The question about one row asks for a model that makes its literal true and violates it. -/
theorem satisfies_asked_iff {m : Assignment} {assumption violation : Expr} {literal : Symbol} :
    m.Satisfies (Run.asked assumption [(i, literal, violation)]) ↔
      m.holds (.var literal) = true ∧ m.holds assumption = true ∧ m.holds violation = true := by
  have parts : Run.asked assumption [(i, literal, violation)] =
      [.var literal, assumption, (⟨literal, violation⟩ : Equality).formula] := rfl
  rw [parts, Assignment.Satisfies]
  simp only [List.forall_mem_cons, List.not_mem_nil, false_implies, implies_true, and_true,
    Equality.eval_formula_iff, m.holds_iff]
  refine and_congr_right fun isTrue => and_congr_right fun _ => ?_
  rw [show m literal = .bool true from Option.some.inj isTrue]

/-- What is held where the question about a row is asked, its literal included. -/
def heldFor (template : PredicateTemplate) (held : List Expr) (i : Nat) : List Expr :=
  .var (Name.violation template.number i).bool :: held

/-- A query finds a model exactly if the row under test can be refuted. -/
theorem exists_asked_iff (length : value.length = template.rows.length)
    (isRow : template.rows[i]? = some row) (tested : search.candidate? = some i)
    {assumption : Expr} (assumed : template.assumption search value = .ok assumption)
    (held : List Expr) :
    (Run.literals template.number (template.violations search) ≠ [] ∧ ∃ m : Assignment,
      m.Satisfies held ∧ m.Satisfies (Run.asked assumption
        (Run.literals template.number (template.violations search)))) ↔
      template.Refutable (template.heldFor held i) (selected value) i row := by
  obtain ⟨whole, answered, isTrue⟩ := exists_assumption length tested
  obtain rfl : whole = assumption := Except.ok.inj (answered.symm.trans assumed)
  rw [literals_violations isRow tested]
  cases isFalse : (notPost row).isFalse with
  | true =>
    refine iff_of_false (fun found => found.1 rfl) ?_
    rintro ⟨m, -, -, violated⟩
    rw [Expr.eq_false_of_isFalse isFalse] at violated
    cases violated
  | false =>
    simp only [Bool.false_eq_true, if_false, ne_eq, List.cons_ne_nil, not_false_eq_true, true_and,
      satisfies_asked_iff, isTrue, Refutable, heldFor]
    refine exists_congr fun m => ?_
    rw [Assignment.Satisfies, Assignment.Satisfies, List.forall_mem_cons, ← m.holds_iff]
    constructor
    · rintro ⟨held, literal, assumes, violated⟩
      exact ⟨⟨literal, held⟩, assumes, violated⟩
    · rintro ⟨⟨literal, held⟩, assumes, violated⟩
      exact ⟨held, literal, assumes, violated⟩

end Queries

section Rounds

variable {σ : Type} [Solver σ] {opened : σ} {scopes : List (List Expr)}
  {template : PredicateTemplate} {run next : Run PredicateSearch PredicateValue σ}

/-- The search after its first candidate is selected. -/
def accepts (search : PredicateSearch) : PredicateSearch :=
  { search.tried with committed := true }

/-- The search after its first candidate is rejected. -/
def rejects (search : PredicateSearch) (i : Nat) : PredicateSearch :=
  { search.tried with rejected := search.rejected ++ [i] }

theorem refute_answers (m : Valuation) (i : Nat) (search : PredicateSearch)
    (value : PredicateValue) :
    ∃ changed, (TemplateDomain.refute template m i search value).outcome = .ok changed := by
  change ∃ changed, (refute i search value).outcome = .ok changed
  unfold refute
  split <;> exact ⟨_, rfl⟩

theorem search_refuteAll (template : PredicateTemplate) {i : Nat} {literal : Symbol}
    (violation : Expr) (tested : run.search.candidate? = some i)
    (isTrue : (Solver.valuation run.session).bool? literal = some true) :
    (Run.refuteAll template [(i, literal, violation)] run).1 = .ok true ∧
      (Run.refuteAll template [(i, literal, violation)] run).2.search =
        rejects run.search i := by
  have told : TemplateDomain.refute template (Solver.valuation run.session) i run.search run.value =
      { outcome := .ok true, search := rejects run.search i, value := run.value } :=
    if_pos tested
  rw [Run.refuteAll, if_pos isTrue, told]
  exact ⟨rfl, rfl⟩

/-- A round against a session that decides every query selects the first candidate if it cannot be
refuted, and rejects it otherwise. -/
theorem exists_round (decides : Solver.Decides opened)
    (holds : Solver.Holds opened scopes run.session)
    (length : run.value.length = template.rows.length) {i : Nat} {row : TemplateRow}
    {rest : List Nat} (isRow : template.rows[i]? = some row)
    (first : run.search.untried = i :: rest) :
    ∃ next, run.round template = (.ok true, next) ∧ Solver.Holds opened scopes next.session ∧
      (¬ template.Refutable (template.heldFor scopes.flatten i) (selected run.value) i row ∧
          next.value = run.value.set i true ∧ next.search = endRound (accepts run.search) ∨
        template.Refutable (template.heldFor scopes.flatten i) (selected run.value) i row ∧
          next.value = run.value ∧ next.search = endRound (rejects run.search i)) := by
  have tested : (run.beginRound PredicateTemplate).search.candidate? = some i := by
    change ({ run.search with testing := true } : PredicateSearch).candidate? = some i
    simp [PredicateSearch.candidate?, first]
  have inside : i < run.value.length := by
    rw [length]
    exact (List.getElem?_eq_some_iff.mp isRow).1
  have confirmed : confirm (run.beginRound PredicateTemplate).search run.value =
      { outcome := .ok true
        search := accepts run.search
        value := run.value.set i true } := by
    rw [confirm, tested]
    exact if_pos inside
  obtain ⟨changed, next, answered⟩ : ∃ changed next, run.round template = (.ok changed, next) := by
    obtain ⟨assumption, assumed, -⟩ := exists_assumption length tested
    exact Run.exists_round decides holds assumed rfl refute_answers
      ⟨true, congrArg Reply.outcome confirmed⟩
  obtain ⟨still, assumption, violations, assumed, violated, settled, told, search, value, -⟩ :=
    Run.round_cases holds answered
  obtain rfl : template.violations (run.beginRound PredicateTemplate).search = violations :=
    Except.ok.inj violated
  have found := exists_asked_iff length isRow tested assumed scopes.flatten
  cases told with
  | confirmed none outcome searched given =>
    obtain rfl : true = changed := by
      rw [show TemplateDomain.confirm template _ _ = _ from confirmed] at outcome
      exact Except.ok.inj outcome
    rw [show TemplateDomain.confirm template _ _ = _ from confirmed] at searched given
    refine ⟨next, answered, still, .inl ⟨?_, value.trans given, by rw [search, searched]; rfl⟩⟩
    rw [← found]
    rintro ⟨asked, m, satisfies, violates⟩
    exact none.elim asked fun refuted => refuted decides.unsat m satisfies violates
  | @refuted solved _ unmoved models outcome exists_model =>
    obtain ⟨j, literal, violation, isEntry, isTrue⟩ := Run.exists_violated (models decides.sat)
    have refutable := found.mp ⟨List.ne_nil_of_mem isEntry, exists_model decides⟩
    -- the question was about this row alone
    have entries : Run.literals (TemplateDomain.number PredicateSearch PredicateValue template)
        (template.violations (run.beginRound PredicateTemplate).search) = _ :=
      literals_violations isRow tested
    split at entries
    · rw [entries] at isEntry
      cases isEntry
    · rw [entries] at isEntry outcome search value
      obtain ⟨rfl, rfl, rfl⟩ : j = i ∧ literal = _ ∧ violation = _ := by simpa using isEntry
      obtain ⟨told, moved⟩ := search_refuteAll template (notPost row)
        (by rw [unmoved.search]; exact tested) isTrue
      cases told.symm.trans outcome
      refine ⟨next, answered, still, .inr ⟨refutable, ?_, ?_⟩⟩
      · rw [value, value_refuteAll, unmoved.value]
        rfl
      · rw [search, moved, unmoved.search]
        rfl
  | undecided _ _ _ _ unsure => exact absurd decides unsure

end Rounds

end PredicateTemplate

end TemplateAnalysis
