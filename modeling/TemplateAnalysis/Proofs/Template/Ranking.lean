import TemplateAnalysis.Proofs.Analysis
import TemplateAnalysis.Proofs.Template.Descent

/-! # What a converged ranking analysis has established

Whatever the searches for coefficients answered, a fixpoint of the iteration is reached only with a
query that finds no transition that its row does not rank, or with a query that stays open. So if
the analysis converges, every row has a rank, and the formulas that the session holds have no model
in which a transition of a row is not ranked.
-/

namespace TemplateAnalysis

private theorem mapM_cases {α β ε : Type} {f : α → Except ε β} {xs : List α} {ys : List β}
    (answered : xs.mapM f = .ok ys) : ys.length = xs.length ∧
      ∀ (i : Nat) (x : α), xs[i]? = some x → ∃ y, f x = .ok y ∧ ys[i]? = some y := by
  induction xs generalizing ys with
  | nil =>
    cases answered
    exact ⟨rfl, nofun⟩
  | cons x xs ih =>
    rw [List.mapM_cons] at answered
    cases first : f x with
    | error e => simp [first, bind, Except.bind] at answered
    | ok y =>
      cases rest : xs.mapM f with
      | error e => simp [first, rest, bind, Except.bind] at answered
      | ok others =>
        obtain rfl : y :: others = ys := by
          simpa [first, rest, bind, Except.bind, pure, Except.pure] using answered
        obtain ⟨length, found⟩ := ih rest
        refine ⟨congrArg (· + 1) length, fun i x isMember => ?_⟩
        cases i with
        | zero =>
          obtain rfl := Option.some.inj isMember
          exact ⟨y, first, rfl⟩
        | succ i => exact found i x isMember

namespace RankingTemplate

/-- The transitions of a row that its rank does not rank. -/
def violation (row : TemplateRow) : Rank → Expr
  | .bottom => transition row
  | .unknown => .bool false
  | .lexicographic tuple => (transition row).and (lexDecrease row.rankingVars tuple).not

variable {template : RankingTemplate} {value : RankingValue} {violations : List Expr}

/-- Every row has a rank, and its violation is the one of this rank. -/
theorem exists_violation (violated : template.violations value = .ok violations) {i : Nat}
    {row : TemplateRow} (isRow : template.rows[i]? = some row) :
    ∃ rank, value[i]? = some rank ∧ violations[i]? = some (violation row rank) := by
  obtain ⟨e, known, isViolation⟩ := (mapM_cases violated).2 i (row, i) (by simp [isRow])
  dsimp only at known
  split at known
  · cases known
  · next held =>
    cases known
    exact ⟨.bottom, held, isViolation⟩
  · next held =>
    cases known
    exact ⟨.unknown, held, isViolation⟩
  · next tuple held =>
    cases known
    exact ⟨.lexicographic tuple, held, isViolation⟩

theorem row_of_violation (violated : template.violations value = .ok violations) {i : Nat}
    {e : Expr} (isViolation : violations[i]? = some e) :
    ∃ row rank, template.rows[i]? = some row ∧ value[i]? = some rank ∧ e = violation row rank := by
  have inside := (List.getElem?_eq_some_iff.mp isViolation).1
  rw [(mapM_cases violated).1, List.length_zipIdx] at inside
  have isRow := List.getElem?_eq_getElem inside
  obtain ⟨rank, held, same⟩ := exists_violation violated isRow
  exact ⟨_, rank, isRow, held, Option.some.inj (isViolation.symm.trans same)⟩

/-- The guards and the variables of a row are terms over given symbols. -/
structure RowOver (P : Symbol → Prop) (row : TemplateRow) : Prop where
  preGuard : row.preGuard.TermOver P .bool
  postGuard : row.postGuard.TermOver P .bool
  vars : ∀ pair ∈ row.rankingVars, pair.1.TermOver P .int ∧ pair.2.TermOver P .int

theorem RowOver.mono {P Q : Symbol → Prop} {row : TemplateRow} (within : RowOver P row)
    (weaker : ∀ s, P s → Q s) : RowOver Q row where
  preGuard := within.preGuard.mono weaker
  postGuard := within.postGuard.mono weaker
  vars pair isPair :=
    ⟨(within.vars pair isPair).1.mono weaker, (within.vars pair isPair).2.mono weaker⟩

theorem transition_term {P : Symbol → Prop} {row : TemplateRow} (within : RowOver P row) :
    (transition row).TermOver P .bool := within.preGuard.and within.postGuard

theorem violation_term {P : Symbol → Prop} {row : TemplateRow} (within : RowOver P row)
    (rank : Rank) : (violation row rank).TermOver P .bool := by
  have transition := transition_term within
  cases rank with
  | bottom => exact transition
  | unknown => exact .bool false
  | lexicographic tuple => exact transition.and (lexDecrease_term within.vars tuple).not

/-- Every row has a rank, and no model of what is held has a transition that is not ranked. -/
def Settled (template : RankingTemplate) (held : List Expr) (value : RankingValue) : Prop :=
  ∀ (i : Nat) (row : TemplateRow), template.rows[i]? = some row → ∃ rank, value[i]? = some rank ∧
    ∀ m : Assignment, m.Satisfies held → m.holds (violation row rank) = false

section Rounds

variable {φ τ σ : Type} [Solver τ] [SessionSource φ τ] [Solver σ] {search : RankingSearch φ τ}
  {m : Valuation} {row : Nat}

theorem done_refute : (template.refute m row search value).search.done = search.done := by
  have refuted := template.refuted_refute m row search value
  generalize template.refute m row search value = reply at refuted ⊢
  cases refuted with
  | failed _ _ isAsked | answered _ _ isAsked | unplaced _ _ isAsked => rw [isAsked]; rfl
  | _ => rfl

/-- Only a row that has been given up already stays as it is. -/
theorem refute_of_unchanged (told : (template.refute m row search value).outcome = .ok false) :
    value[row]? = some .unknown ∧ (template.refute m row search value).value = value := by
  have refuted := template.refuted_refute m row search value
  generalize template.refute m row search value = reply at told refuted ⊢
  cases refuted with
  | givenUp spent held => exact ⟨held, rfl⟩
  | _ => cases told

private theorem map_or_eq_false {outcome : Except Failure Bool} {changed : Bool}
    (told : outcome.map (changed || ·) = .ok false) : changed = false ∧ outcome = .ok false := by
  cases outcome with
  | error failure => cases told
  | ok later => cases changed <;> cases later <;> simp_all [Except.map]

variable {rows : List (Nat × Symbol × Expr)} {run : Run (RankingSearch φ τ) RankingValue σ}

theorem done_refuteAll : (Run.refuteAll template rows run).2.search.done = run.search.done := by
  induction rows generalizing run with
  | nil => rfl
  | cons first rest ih =>
    obtain ⟨row, literal, violation⟩ := first
    unfold Run.refuteAll
    split
    · split
      · next told =>
        rw [← (Prod.mk.inj told).2]
        exact done_refute
      · next told =>
        dsimp only
        rw [ih, ← (Prod.mk.inj told).2]
        exact done_refute
    · exact ih

/-- If being told of the violated rows changes nothing, they have all been given up already. -/
theorem unknown_of_refuteAll (told : (Run.refuteAll template rows run).1 = .ok false)
    {literal : Symbol} {violation : Expr} (isRow : (row, literal, violation) ∈ rows)
    (violated : (Solver.valuation run.session).bool? literal = some true) :
    run.value[row]? = some .unknown := by
  induction rows generalizing run with
  | nil => cases isRow
  | cons first rest ih =>
    obtain ⟨other, symbol, e⟩ := first
    unfold Run.refuteAll at told
    split at told
    · next holds =>
      split at told
      · cases told
      · next changed stood adopted =>
        obtain ⟨outcome, rfl⟩ := Prod.mk.inj adopted
        obtain ⟨rfl, rest⟩ := map_or_eq_false told
        obtain ⟨unknown, unchanged⟩ := refute_of_unchanged outcome
        rcases List.mem_cons.mp isRow with same | isLater
        · cases same
          exact unknown
        · have given := ih rest isLater violated
          rw [← unchanged]
          exact given
    · next fails =>
      rcases List.mem_cons.mp isRow with same | later
      · cases same
        exact absurd violated fails
      · exact ih told later violated

variable {opened : σ} {scopes : List (List Expr)} {number : Nat}
  {next : Run (RankingSearch φ τ) RankingValue σ}

/-- A round that changes something leaves work to do. -/
theorem done_of_round (holds : Solver.Holds opened scopes run.session)
    (answered : run.round template = (.ok true, next)) :
    next.search.done = run.search.done := by
  obtain ⟨-, assumption, violations, -, -, settled, told, found, -⟩ :=
    Run.round_cases holds answered
  rw [found]
  cases told with
  | confirmed _ outcome => cases outcome
  | refuted unmoved _ _ =>
    exact done_refuteAll.trans (congrArg RankingSearch.done unmoved.search)
  | undecided outcome => cases outcome

/-- A round that changes nothing has found every transition ranked, or counts as undecided. -/
theorem settled_of_round (unsat : Solver.UnsatSound opened) (sat : Solver.SatSound opened)
    (heldTerms : ∀ formula ∈ scopes.flatten,
      formula.TermOver (Run.NoLiteral template.number) .bool)
    (rowTerms : ∀ row ∈ template.rows, RowOver (Run.NoLiteral template.number) row)
    (holds : Solver.Holds opened scopes run.session)
    (answered : run.round template = (.ok false, next)) (decided : next.undecided = 0) :
    template.Settled scopes.flatten next.value := by
  obtain ⟨-, assumption, violations, assumed, violated, settled, told, -, value, undecided⟩ :=
    Run.round_cases holds answered
  obtain rfl : .bool true = assumption := Except.ok.inj assumed
  have terms : ∀ violation ∈ violations,
      violation.TermOver (Run.NoLiteral template.number) .bool := by
    intro violation isViolation
    obtain ⟨i, isEntry⟩ := List.mem_iff_getElem?.mp isViolation
    obtain ⟨row, rank, isRow, -, rfl⟩ := row_of_violation violated isEntry
    exact violation_term (rowTerms row (List.mem_of_getElem? isRow)) rank
  rw [value]
  cases told with
  | confirmed none _ _ kept =>
    intro i row isRow
    obtain ⟨rank, held, isViolation⟩ := exists_violation violated isRow
    rw [kept]
    refine ⟨rank, held, fun m satisfies => ?_⟩
    exact Run.holds_violation_eq_false heldTerms (.bool true) terms
      (none.imp_right fun refuted => refuted unsat) satisfies rfl (List.mem_of_getElem? isViolation)
  | refuted unmoved models outcome =>
    -- the valuation makes some literal true, and its row has not been given up
    obtain ⟨i, literal, e, isLiteral, isTrue⟩ := Run.exists_violated (models sat)
    obtain ⟨isViolation, notFalse, -⟩ := Run.mem_literals.mp isLiteral
    obtain ⟨row, rank, -, held, rfl⟩ := row_of_violation violated isViolation
    have unknown := unknown_of_refuteAll outcome isLiteral isTrue
    rw [unmoved.value] at unknown
    obtain rfl : rank = .unknown := Option.some.inj (held.symm.trans unknown)
    cases notFalse
  | undecided _ _ _ counted =>
    rw [undecided, counted] at decided
    cases decided

/-- At a fixpoint every transition is ranked, or some query is undecided. -/
theorem settled_of_fixpoint (unsat : Solver.UnsatSound opened) (sat : Solver.SatSound opened)
    (heldTerms : ∀ formula ∈ scopes.flatten,
      formula.TermOver (Run.NoLiteral template.number) .bool)
    (rowTerms : ∀ row ∈ template.rows, RowOver (Run.NoLiteral template.number) row)
    (holds : Solver.Holds opened scopes run.session) (working : run.search.done = false)
    (answered : run.fixpoint template = (.ok (), next)) :
    Solver.Holds opened scopes next.session ∧
      (next.undecided = 0 → template.Settled scopes.flatten next.value) := by
  refine Run.fixpoint_induction
    (fun run => Solver.Holds opened scopes run.session ∧ run.search.done = false)
    (fun next => Solver.Holds opened scopes next.session ∧
      (next.undecided = 0 → template.Settled scopes.flatten next.value))
    ?_ ?_ ?_ ⟨holds, working⟩ answered
  · intro run next ⟨holds, working⟩ _ answered
    exact ⟨(Run.round_cases holds answered).1, (done_of_round holds answered).trans working⟩
  · intro run next ⟨holds, _⟩ _ answered
    exact ⟨(Run.round_cases holds answered).1,
      settled_of_round unsat sat heldTerms rowTerms holds answered⟩
  · intro run ⟨_, working⟩ idle
    change (!run.search.done) = false at idle
    simp [working] at idle

variable (template) in
/-- If the exploration of templates converges and no query stays open, every row of the template is
ranked in every model of what the session holds. -/
theorem ranked_of_explore (unsat : Solver.UnsatSound opened) (sat : Solver.SatSound opened)
    (heldTerms : ∀ formula ∈ scopes.flatten,
      formula.TermOver (Run.NoLiteral template.number) .bool)
    (rowTerms : ∀ row ∈ template.rows, RowOver (Run.NoLiteral template.number) row)
    (holds : Solver.Holds opened scopes run.session) {larger : RankingTemplate}
    (answered : run.explore template = (.ok .converged, larger, next))
    (decided : next.undecided = 0) {row : TemplateRow} (isRow : row ∈ template.rows) :
    ∃ rank, rank ≠ .unknown ∧
      ∀ m : Assignment, m.Satisfies scopes.flatten → m.holds (violation row rank) = false := by
  -- a refinement changes neither the rows nor the number
  obtain ⟨⟨rows, -, -, settled⟩, satisfied⟩ := Run.explore_induction
    (fun tried run => tried.rows = template.rows ∧ tried.number = template.number ∧
      Solver.Holds opened scopes run.session)
    (fun tried next => tried.rows = template.rows ∧ tried.number = template.number ∧
      Solver.Holds opened scopes next.session ∧
        (next.undecided = 0 → tried.Settled scopes.flatten next.value))
    (by
      rintro tried run next ⟨rows, number, holds⟩ fixed
      have restarted : Solver.Holds opened scopes (run.restarted tried).session := holds
      refine ⟨rows, number, settled_of_fixpoint unsat sat ?_ ?_ restarted rfl fixed⟩
      · rw [number]
        exact heldTerms
      · rw [number, rows]
        exact rowTerms)
    (by
      rintro tried larger run search ⟨rows, number, holds, -⟩ enlarged
      change tried.refine? run.search = _ at enlarged
      unfold refine? at enlarged
      split at enlarged
      · cases enlarged
      · cases enlarged
        exact ⟨rows, number, holds⟩)
    ⟨rfl, rfl, holds⟩ answered
  obtain ⟨i, isEntry⟩ := List.mem_iff_getElem?.mp isRow
  obtain ⟨rank, held, ranked⟩ := settled decided i row (by rw [rows]; exact isEntry)
  refine ⟨rank, ?_, ranked⟩
  rintro rfl
  have kept := satisfied rfl
  change next.value.any (· == .unknown) = false at kept
  simpa using List.any_eq_false.mp kept _ (List.mem_of_getElem? held)

end Rounds

end RankingTemplate

end TemplateAnalysis
