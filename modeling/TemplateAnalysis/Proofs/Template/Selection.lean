import TemplateAnalysis.Proofs.Analysis
import TemplateAnalysis.Template.Predicates

/-! # Selected candidates are stable together

A candidate is selected only when no transition violates it while all that is selected, and the
candidate itself, is assumed before the transition. What is selected stays selected. So the selected
rows are stable together: in every model of what the session holds, if they are true before a
transition then they are true after it. A query that stays open only leaves a candidate out.
-/

namespace TemplateAnalysis

/-- Every part that a conjunction asked for was answered. -/
theorem Template.mem_of_partsUntilFalse {parts : List (Except Failure Expr)} {es : List Expr}
    (answered : partsUntilFalse parts = .ok es) {e : Expr} (member : e ∈ es) : .ok e ∈ parts := by
  induction parts generalizing es with
  | nil =>
    cases answered
    cases member
  | cons first rest ih =>
    cases first with
    | error failure => cases answered
    | ok part =>
      unfold partsUntilFalse at answered
      split at answered
      · cases answered
        obtain rfl := List.mem_singleton.mp member
        exact List.mem_cons_self
      · cases later : partsUntilFalse rest with
        | error failure => simp [later, Except.map] at answered
        | ok others =>
          rw [later] at answered
          cases answered
          rcases List.mem_cons.mp member with rfl | isLater
          · exact List.mem_cons_self
          · exact List.mem_cons_of_mem _ (ih later isLater)

/-- Stopping at `false` does not change a conjunction. -/
theorem Template.conjParts_map_ok (es : List Expr) :
    conjParts (es.map .ok) = .ok (Expr.conj es) := by
  suffices reduced : ∃ kept, partsUntilFalse (es.map .ok) = .ok kept ∧
      Expr.operands? .and kept = Expr.operands? .and es by
    obtain ⟨kept, isKept, same⟩ := reduced
    rw [conjParts, isKept, Expr.conj, Expr.join, ← same]
    rfl
  induction es with
  | nil => exact ⟨[], rfl, rfl⟩
  | cons e es ih =>
    obtain ⟨kept, isKept, same⟩ := ih
    rw [List.map_cons, partsUntilFalse]
    cases isFalse : e.isFalse with
    | true =>
      obtain rfl := Expr.eq_false_of_isFalse isFalse
      exact ⟨[.bool false], rfl, rfl⟩
    | false =>
      refine ⟨e :: kept, by rw [isKept]; rfl, ?_⟩
      cases e <;> simp only [Expr.operands?, same]

namespace PredicateTemplate

/-- The guards and predicates of a row are terms over given symbols. -/
structure RowOver (P : Symbol → Prop) (row : TemplateRow) : Prop where
  preGuard : row.preGuard.TermOver P .bool
  postGuard : row.postGuard.TermOver P .bool
  predicate : ∃ pre post, row.shape = .predicate pre post ∧ pre.TermOver P .bool ∧
    post.TermOver P .bool

/-- A transition after which the row is false. -/
def violation (row : TemplateRow) : Expr :=
  match row.shape with
  | .predicate _ post => row.postGuard.and post.not
  | .ranking _ => .bool false

section Rows

variable {P : Symbol → Prop} {row : TemplateRow}

theorem RowOver.mono {Q : Symbol → Prop} (terms : RowOver P row) (weaker : ∀ s, P s → Q s) :
    RowOver Q row := by
  obtain ⟨preGuard, postGuard, pre, post, shape, before, after⟩ := terms
  exact ⟨preGuard.mono weaker, postGuard.mono weaker, pre, post, shape, before.mono weaker,
    after.mono weaker⟩

theorem statementBefore_term (terms : RowOver P row) : (statementBefore row).TermOver P .bool := by
  obtain ⟨preGuard, -, pre, post, shape, before, -⟩ := terms
  rw [statementBefore, shape]
  exact preGuard.implies before

/-- A row says nothing where its guard is false. -/
theorem holds_statementBefore_of_guard (terms : RowOver P row) {m : Assignment}
    (off : m.holds row.preGuard = false) : m.holds (statementBefore row) = true := by
  obtain ⟨preGuard, -, pre, post, shape, before, -⟩ := terms
  rw [statementBefore, shape]
  change m.holds (row.preGuard.implies pre) = true
  rw [m.holds_implies preGuard before, off]
  rfl

theorem holds_statementAfter (terms : RowOver P row) (m : Assignment) :
    m.holds (statementAfter row) = !m.holds (violation row) := by
  obtain ⟨-, postGuard, pre, post, shape, -, after⟩ := terms
  rw [statementAfter, violation, shape]
  simp only [m.holds_implies postGuard after, m.holds_and postGuard after.not, m.holds_not after]
  cases m.holds row.postGuard <;> cases m.holds post <;> rfl

end Rows

variable {template : PredicateTemplate} {search : PredicateSearch} {value : PredicateValue}
  {P : Symbol → Prop}

/-- The chosen rows are true before a transition. -/
def Assumes (template : PredicateTemplate) (chosen : Nat → Prop) (m : Assignment) : Prop :=
  ∀ (i : Nat) (row : TemplateRow), template.rows[i]? = some row → chosen i →
    row.isAssumed = true → m.holds (statementBefore row) = true

/-- In every model of what is held, the selected rows are true after a transition if they are true
before it. -/
def Stable (template : PredicateTemplate) (held : List Expr) (value : PredicateValue) : Prop :=
  ∀ m : Assignment, m.Satisfies held → template.Assumes (fun i => value[i]? = some true) m →
    ∀ (i : Nat) (row : TemplateRow), template.rows[i]? = some row → value[i]? = some true →
      row.isChecked = true → m.holds (statementAfter row) = true

/-- What is assumed in a query are the rows selected or under test. -/
theorem assumption_cases {assumption : Expr}
    (assumed : template.assumption search value = .ok assumption) :
    ∃ es, assumption = Expr.conj es ∧ ∀ e ∈ es, e = .bool true ∨ ∃ i row,
      template.rows[i]? = some row ∧ row.isAssumed = true ∧
        (value[i]? = some true ∨ search.candidate? = some i) ∧ e = statementBefore row := by
  unfold PredicateTemplate.assumption Template.conjParts at assumed
  cases answered : Template.partsUntilFalse _ with
  | error failure =>
    rw [answered] at assumed
    cases assumed
  | ok es =>
    rw [answered] at assumed
    cases assumed
    refine ⟨es, rfl, fun e member => ?_⟩
    obtain ⟨⟨row, i⟩, isRow, part⟩ :=
      List.mem_map.mp (Template.mem_of_partsUntilFalse answered member)
    obtain ⟨isRow, isAssumed⟩ := List.mem_filter.mp isRow
    dsimp only at part
    split at part
    · cases part
    · next selected held =>
      split at part
      · next chosen =>
        cases part
        refine .inr ⟨i, row, List.mem_zipIdx_iff_getElem?.mp isRow, isAssumed, ?_, rfl⟩
        simpa [held] using chosen
      · cases part
        exact .inl rfl

theorem holds_assumption {assumption : Expr} {m : Assignment}
    (assumed : template.assumption search value = .ok assumption)
    (assumes : template.Assumes (fun i => value[i]? = some true ∨ search.candidate? = some i) m) :
    m.holds assumption = true := by
  obtain ⟨es, rfl, parts⟩ := assumption_cases assumed
  refine m.holds_iff.mpr (Expr.eval_conj_iff.mpr fun e member => ?_)
  rcases parts e member with rfl | ⟨i, row, isRow, isAssumed, chosen, rfl⟩
  · rfl
  · exact m.holds_iff.mp (assumes i row isRow chosen isAssumed)

section Terms

variable (rowTerms : ∀ row ∈ template.rows, RowOver P row)
include rowTerms

theorem assumption_term {assumption : Expr}
    (assumed : template.assumption search value = .ok assumption) :
    assumption.TermOver P .bool := by
  obtain ⟨es, rfl, parts⟩ := assumption_cases assumed
  refine .conj fun e member => ?_
  rcases parts e member with rfl | ⟨i, row, isRow, -, -, rfl⟩
  · exact .bool true
  · exact statementBefore_term (rowTerms row (List.mem_of_getElem? isRow))

theorem violations_term {e : Expr} (isViolation : e ∈ template.violations search) :
    e.TermOver P .bool := by
  obtain ⟨⟨row, i⟩, isRow, rfl⟩ := List.mem_map.mp isViolation
  have terms := rowTerms row (List.mem_of_getElem? (List.mem_zipIdx_iff_getElem?.mp isRow))
  obtain ⟨-, postGuard, pre, post, shape, -, after⟩ := terms
  simp only [shape]
  split
  · exact postGuard.and after.not
  · exact .bool false

/-- The violation of the row under test is asked for. -/
theorem mem_violations {i : Nat} {row : TemplateRow} (isRow : template.rows[i]? = some row)
    (tested : search.candidate? = some i) (isChecked : row.isChecked = true) :
    violation row ∈ template.violations search := by
  obtain ⟨-, -, pre, post, shape, -⟩ := rowTerms row (List.mem_of_getElem? isRow)
  refine List.mem_map.mpr ⟨(row, i), List.mem_zipIdx_iff_getElem?.mpr isRow, ?_⟩
  simp [violation, shape, tested, isChecked]

end Terms

/-- A candidate that is confirmed joins what is selected, and nothing else changes. -/
theorem value_confirm {changed : Bool} (outcome : (confirm search value).outcome = .ok changed) :
    (confirm search value).value = value ∨ ∃ i, search.candidate? = some i ∧ i < value.length ∧
      (confirm search value).value = value.set i true := by
  unfold confirm at outcome ⊢
  split at outcome
  · exact .inl rfl
  · next i tested =>
    split at outcome
    · next inside => exact .inr ⟨i, tested, inside, by simp [inside]⟩
    · cases outcome

theorem value_giveUp : (giveUp search value).value = value := by
  unfold giveUp
  split <;> rfl

section Rounds

variable {σ : Type} [Solver σ] {opened : σ} {scopes : List (List Expr)}
  {run next : Run PredicateSearch PredicateValue σ}

theorem value_refuteAll {rows : List (Nat × Symbol × Expr)} :
    (Run.refuteAll template rows run).2.value = run.value := by
  induction rows generalizing run with
  | nil => rfl
  | cons first rest ih =>
    obtain ⟨row, literal, violation⟩ := first
    have kept : (refute row run.search run.value).value = run.value := by
      unfold refute
      split <;> rfl
    unfold Run.refuteAll
    split
    · split
      · next told =>
        rw [← (Prod.mk.inj told).2]
        exact kept
      · next told =>
        dsimp only
        rw [ih, ← (Prod.mk.inj told).2]
        exact kept
    · exact ih

/-- What is selected is stable, so is what is selected with a candidate that no transition
violates. -/
theorem stable_set {held : List Expr} {i : Nat} (stable : template.Stable held value)
    (inside : i < value.length)
    (kept : ∀ m : Assignment, m.Satisfies held →
      template.Assumes (fun j => value[j]? = some true ∨ some i = some j) m →
      ∀ row, template.rows[i]? = some row → row.isChecked = true →
        m.holds (statementAfter row) = true) :
    template.Stable held (value.set i true) := by
  intro m satisfies assumes j row isRow selected isChecked
  have grows : ∀ k, value[k]? = some true ∨ some i = some k →
      (value.set i true)[k]? = some true := by
    rintro k (earlier | same)
    · rw [List.getElem?_set]
      split <;> simp_all
    · cases same
      simp [inside]
  by_cases same : i = j
  · subst same
    exact kept m satisfies (fun k row isRow chosen => assumes k row isRow (grows k chosen)) row
      isRow isChecked
  · rw [List.getElem?_set_ne same] at selected
    exact stable m satisfies (fun k row isRow chosen => assumes k row isRow (grows k (.inl chosen)))
      j row isRow selected isChecked

/-- A round keeps what is selected stable. -/
theorem stable_of_round (unsat : Solver.UnsatSound opened)
    (heldTerms : ∀ formula ∈ scopes.flatten,
      formula.TermOver (Run.NoLiteral template.number) .bool)
    (rowTerms : ∀ row ∈ template.rows, RowOver (Run.NoLiteral template.number) row)
    (holds : Solver.Holds opened scopes run.session)
    (stable : template.Stable scopes.flatten run.value) {changed : Bool}
    (answered : run.round template = (.ok changed, next)) :
    template.Stable scopes.flatten next.value := by
  obtain ⟨-, assumption, violations, assumed, violated, settled, told, -, value, -⟩ :=
    Run.round_cases holds answered
  obtain rfl : template.violations (run.beginRound PredicateTemplate).search = violations :=
    Except.ok.inj violated
  rw [value]
  cases told with
  | confirmed none outcome _ given =>
    rw [given]
    change template.Stable _ (confirm _ _).value
    rcases value_confirm outcome with same | ⟨i, tested, inside, set⟩
    · rw [same]
      exact stable
    · rw [set]
      refine stable_set stable inside fun m satisfies assumes row isRow isChecked => ?_
      have isViolation := mem_violations rowTerms isRow tested isChecked
      rw [← tested] at assumes
      rw [holds_statementAfter (rowTerms row (List.mem_of_getElem? isRow)), Bool.not_eq_true']
      exact Run.holds_violation_eq_false heldTerms (assumption_term rowTerms assumed)
        (fun e => violations_term rowTerms) (none.imp_right fun refuted => refuted unsat) satisfies
        (holds_assumption assumed assumes) isViolation
  | refuted unmoved =>
    rw [value_refuteAll, unmoved.value]
    exact stable
  | undecided _ _ given =>
    rw [given]
    change template.Stable _ (giveUp _ _).value
    rw [value_giveUp]
    exact stable

theorem stable_of_fixpoint (unsat : Solver.UnsatSound opened)
    (heldTerms : ∀ formula ∈ scopes.flatten,
      formula.TermOver (Run.NoLiteral template.number) .bool)
    (rowTerms : ∀ row ∈ template.rows, RowOver (Run.NoLiteral template.number) row)
    (holds : Solver.Holds opened scopes run.session)
    (stable : template.Stable scopes.flatten run.value)
    (answered : run.fixpoint template = (.ok (), next)) :
    Solver.Holds opened scopes next.session ∧ template.Stable scopes.flatten next.value := by
  have keeps : ∀ (changed : Bool) (run next : Run PredicateSearch PredicateValue σ),
      Solver.Holds opened scopes run.session ∧ template.Stable scopes.flatten run.value →
      TemplateDomain.hasWork PredicateTemplate PredicateValue run.search = true →
      run.round template = (.ok changed, next) →
      Solver.Holds opened scopes next.session ∧ template.Stable scopes.flatten next.value := by
    intro changed run next ⟨holds, stable⟩ _ answered
    exact ⟨(Run.round_cases holds answered).1,
      stable_of_round unsat heldTerms rowTerms holds stable answered⟩
  exact Run.fixpoint_induction _ _ (keeps true) (keeps false) (fun _ kept _ => kept)
    ⟨holds, stable⟩ answered

variable (template) in
/-- Whatever its status, an exploration of templates ends with a stable selection. -/
theorem stable_of_explore (unsat : Solver.UnsatSound opened)
    (heldTerms : ∀ formula ∈ scopes.flatten,
      formula.TermOver (Run.NoLiteral template.number) .bool)
    (rowTerms : ∀ row ∈ template.rows, RowOver (Run.NoLiteral template.number) row)
    (holds : Solver.Holds opened scopes run.session) {status : Status}
    {larger : PredicateTemplate} (answered : run.explore template = (.ok status, larger, next)) :
    template.Stable scopes.flatten next.value := by
  -- a refinement changes neither the rows nor the number
  obtain ⟨⟨rows, -, -, stable⟩, -⟩ := Run.explore_induction
    (fun tried run => tried.rows = template.rows ∧ tried.number = template.number ∧
      Solver.Holds opened scopes run.session)
    (fun tried next => tried.rows = template.rows ∧ tried.number = template.number ∧
      Solver.Holds opened scopes next.session ∧ tried.Stable scopes.flatten next.value)
    (by
      rintro tried run next ⟨rows, number, holds⟩ fixed
      have nothing : tried.Stable scopes.flatten tried.newValue := by
        intro m _ _ i row isRow selected
        rw [newValue, List.getElem?_map, isRow] at selected
        cases selected
      have restarted : Solver.Holds opened scopes (run.restarted tried).session := holds
      refine ⟨rows, number, stable_of_fixpoint unsat ?_ ?_ restarted nothing fixed⟩
      · rw [number]
        exact heldTerms
      · rw [number, rows]
        exact rowTerms)
    (by
      rintro tried larger run search ⟨rows, number, holds, -⟩ enlarged
      change (tried.refine?.map fun refined => (refined, run.search)) = _ at enlarged
      unfold refine? at enlarged
      split at enlarged
      · cases enlarged
      · cases enlarged
        exact ⟨rows, number, holds⟩)
    ⟨rfl, rfl, holds⟩ answered
  unfold Stable Assumes at stable ⊢
  rwa [rows] at stable

end Rounds

end PredicateTemplate

end TemplateAnalysis
