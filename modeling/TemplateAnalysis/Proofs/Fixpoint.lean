import TemplateAnalysis.Fixpoint
import TemplateAnalysis.Proofs.ControlFlow
import TemplateAnalysis.Proofs.Expr.Terms
import TemplateAnalysis.Proofs.Names
import TemplateAnalysis.Proofs.Solver.Sessions

/-! # What a round of a fixpoint iteration learns

A round poses one query to the session and leaves it holding what it held before. The domain is told
that no row is violated only if there is none to ask for or the session found no model; it is told
of violated rows only with the valuation of the session; otherwise one more query counts as
undecided. What holds at the end of an iteration follows from what every round keeps.
-/

namespace TemplateAnalysis

namespace Run

variable {δ ι V σ : Type} [Solver σ] [TemplateDomain δ ι V]

/-- The formulas of a query: what is assumed, and what the literals mean. -/
def posed (assumption : Expr) (rows : List (Nat × Symbol × Expr)) : List Expr :=
  assumption :: rows.map fun (_, literal, violation) => Expr.equal (.var literal) violation

/-- The two runs differ at most in what was asked of the session. -/
structure Unmoved (run next : Run ι V σ) : Prop where
  search : next.search = run.search
  value : next.value = run.value
  undecided : next.undecided = run.undecided

variable {opened : σ} {template : δ} {scope : List Expr} {outer : List (List Expr)}

private theorem unmoved_asserts (rows : List (Nat × Symbol × Expr)) (run : Run ι V σ)
    (holds : Solver.Holds opened (scope :: outer) run.session) :
    let next := rows.foldl (fun run (_, literal, violation) =>
      run.assert (Expr.equal (.var literal) violation)) run
    run.Unmoved next ∧ ∃ inner, Solver.Holds opened (inner :: outer) next.session ∧
      ∀ formula, formula ∈ inner ↔ formula ∈ scope ∨ ∃ row ∈ rows,
        formula = Expr.equal (.var row.2.1) row.2.2 := by
  induction rows generalizing run scope with
  | nil => exact ⟨⟨rfl, rfl, rfl⟩, scope, holds, by simp⟩
  | cons row rest ih =>
    obtain ⟨unmoved, inner, held, members⟩ := ih (run.assert (Expr.equal (.var row.2.1) row.2.2))
      (holds.assert _)
    refine ⟨⟨unmoved.search, unmoved.value, unmoved.undecided⟩, inner, held, fun formula => ?_⟩
    simp only [members, List.mem_cons, exists_eq_or_imp, or_assoc]
    exact or_left_comm

/-- A query that is posed leaves the run where it is, and the session holds its formulas. -/
theorem pose_cases {run next : Run ι V σ} {rows : List (Nat × Symbol × Expr)}
    (holds : Solver.Holds opened (scope :: outer) run.session)
    (answered : run.pose template = (.ok rows, next)) :
    ∃ assumption violations,
      TemplateDomain.assumption template run.search run.value = .ok assumption ∧
      TemplateDomain.violations template run.search run.value = .ok violations ∧
      rows = literals (TemplateDomain.number ι V template) violations ∧ run.Unmoved next ∧
      ∃ inner, Solver.Holds opened (inner :: outer) next.session ∧
        ∀ formula, formula ∈ inner ↔ formula ∈ posed assumption rows ++ scope := by
  unfold pose at answered
  split at answered
  · cases answered
  · next assumption assumed =>
    dsimp only at answered
    split at answered
    · cases answered
    · next violations violated =>
      obtain ⟨rfl, rfl⟩ : literals _ violations = rows ∧ _ = next := by
        simpa using answered
      obtain ⟨unmoved, inner, held, members⟩ := unmoved_asserts
        (literals (TemplateDomain.number ι V template) violations) (run.assert assumption)
        (holds.assert assumption)
      refine ⟨assumption, violations, assumed, violated, rfl,
        ⟨unmoved.search, unmoved.value, unmoved.undecided⟩, inner, held, fun formula => ?_⟩
      simp only [members, posed, List.mem_append, List.mem_cons, List.mem_map]
      grind

/-- What is asked in a query about rows. -/
def asked (assumption : Expr) (rows : List (Nat × Symbol × Expr)) : List Expr :=
  someViolated rows :: posed assumption rows

/-- What the domain is told when a query about rows is answered, in a session that holds some
formulas. -/
inductive Told (opened : σ) (template : δ) (held : List Expr) (assumption : Expr)
    (rows : List (Nat × Symbol × Expr)) (run : Run ι V σ) : Bool → Run ι V σ → Prop
  /-- no transition violates a row -/
  | confirmed {changed : Bool} {next : Run ι V σ}
      (none : rows = [] ∨ (Solver.UnsatSound opened → ∀ m : Assignment, m.Satisfies held →
        ¬ m.Satisfies (asked assumption rows)))
      (outcome : (TemplateDomain.confirm template run.search run.value).outcome = .ok changed)
      (found : next.search = (TemplateDomain.confirm template run.search run.value).search)
      (value : next.value = (TemplateDomain.confirm template run.search run.value).value) :
      Told opened template held assumption rows run changed next
  /-- the session has a transition, and the rows whose literals are true there are violated -/
  | refuted {solved : Run ι V σ} {changed : Bool} (unmoved : run.Unmoved solved)
      (models : Solver.SatSound opened → ∀ formula ∈ asked assumption rows,
        formula.eval (Solver.valuation solved.session) = some (.bool true))
      (outcome : (refuteAll template rows solved).1 = .ok changed)
      (exists_model : Solver.Decides opened → ∃ m : Assignment, m.Satisfies held ∧
        m.Satisfies (asked assumption rows)) :
      Told opened template held assumption rows run changed (refuteAll template rows solved).2
  /-- the session does not know -/
  | undecided {changed : Bool} {next : Run ι V σ}
      (outcome : (TemplateDomain.giveUp template run.search run.value).outcome = .ok changed)
      (found : next.search = (TemplateDomain.giveUp template run.search run.value).search)
      (value : next.value = (TemplateDomain.giveUp template run.search run.value).value)
      (undecided : next.undecided = run.undecided + 1)
      (unsure : ¬ Solver.Decides opened) :
      Told opened template held assumption rows run changed next

/-- What the domain is told depends on where the run stands, not on what was asked before. -/
theorem Told.of_unmoved {held : List Expr} {assumption : Expr} {rows : List (Nat × Symbol × Expr)}
    {run other next : Run ι V σ} {changed : Bool} (unmoved : run.Unmoved other)
    (told : Told opened template held assumption rows other changed next) :
    Told opened template held assumption rows run changed next := by
  obtain ⟨search, value, undecided⟩ := unmoved
  cases told with
  | confirmed none outcome found given =>
    rw [search, value] at outcome found given
    exact .confirmed none outcome found given
  | refuted same models outcome exists_model =>
    exact .refuted ⟨same.search.trans search, same.value.trans value,
      same.undecided.trans undecided⟩ models outcome exists_model
  | undecided outcome found given counted unsure =>
    rw [search, value] at outcome found given
    exact .undecided outcome found given (by rw [counted, undecided]) unsure

theorem session_refuteAll (rows : List (Nat × Symbol × Expr)) (run : Run ι V σ) :
    (refuteAll template rows run).2.session = run.session := by
  induction rows generalizing run with
  | nil => rfl
  | cons row rest ih =>
    obtain ⟨row, literal, violation⟩ := row
    unfold refuteAll
    split
    · split
      · next told => rw [← (Prod.mk.inj told).2]
      · next told =>
        simp only [ih]
        rw [← (Prod.mk.inj told).2]
    · exact ih run

/-- Whatever the session says, its scopes stay open. -/
theorem holds_settle {run next : Run ι V σ} {rows : List (Nat × Symbol × Expr)}
    {outcome : Except Failure Bool} (holds : Solver.Holds opened (scope :: outer) run.session)
    (answered : run.settle template rows = (outcome, next)) :
    ∃ inner, Solver.Holds opened (inner :: outer) next.session := by
  obtain rfl : (run.settle template rows).2 = next := congrArg Prod.snd answered
  unfold settle
  split
  · exact ⟨scope, holds⟩
  · have holds := (holds.assert (someViolated rows)).solve
    refine ⟨someViolated rows :: scope, ?_⟩
    split
    · next solved =>
      obtain ⟨-, rfl⟩ := Prod.mk.inj solved
      exact holds
    · next solved =>
      obtain ⟨-, rfl⟩ := Prod.mk.inj solved
      rw [session_refuteAll]
      exact holds
    · next solved =>
      obtain ⟨-, rfl⟩ := Prod.mk.inj solved
      exact holds
    · next solved =>
      obtain ⟨-, rfl⟩ := Prod.mk.inj solved
      exact holds

/-- Once a query is posed, the domain is told what the session says. -/
theorem settle_cases {run next : Run ι V σ} {rows : List (Nat × Symbol × Expr)} {changed : Bool}
    {assumption : Expr} {held inner : List Expr}
    (holds : Solver.Holds opened (inner :: outer) run.session)
    (members : ∀ formula, formula ∈ (inner :: outer).flatten ↔
      formula ∈ posed assumption rows ++ held)
    (answered : run.settle template rows = (.ok changed, next)) :
    Told opened template held assumption rows run changed next := by
  unfold settle at answered
  split at answered
  · next isEmpty =>
    obtain ⟨outcome, rfl⟩ := Prod.mk.inj answered
    exact .confirmed (.inl (List.isEmpty_iff.mp isEmpty)) outcome rfl rfl
  · -- the session now holds the question as well
    have holds := holds.assert (someViolated rows)
    have asks : ∀ formula, formula ∈ ((someViolated rows :: inner) :: outer).flatten ↔
        formula ∈ asked assumption rows ++ held := by
      intro formula
      rw [List.flatten_cons, List.cons_append, List.mem_cons, ← List.flatten_cons, members]
      simp only [asked, List.cons_append, List.mem_cons]
    split at answered
    · cases answered
    · next solved sat =>
      obtain ⟨verdict, rfl⟩ := Prod.mk.inj sat
      obtain ⟨outcome, rfl⟩ := Prod.mk.inj answered
      refine .refuted ⟨rfl, rfl, rfl⟩ ?_ outcome ?_
      · intro sound formula isAsked
        exact sound _ _ holds verdict formula
          ((asks formula).mpr (List.mem_append_left _ isAsked))
      · intro decides
        obtain ⟨m, satisfies⟩ := decides.exists_model _ _ holds verdict
        exact ⟨m, fun formula isHeld => satisfies formula
            ((asks formula).mpr (List.mem_append_right _ isHeld)),
          fun formula isAsked => satisfies formula
            ((asks formula).mpr (List.mem_append_left _ isAsked))⟩
    · next solved unsat =>
      obtain ⟨verdict, rfl⟩ := Prod.mk.inj unsat
      obtain ⟨outcome, rfl⟩ := Prod.mk.inj answered
      refine .confirmed (.inr fun sound m satisfies violated => ?_) outcome rfl rfl
      refine sound _ _ holds verdict m fun formula isHeld => ?_
      exact (List.mem_append.mp ((asks formula).mp isHeld)).elim (violated formula)
        (satisfies formula)
    · next solved unknown =>
      obtain ⟨verdict, rfl⟩ := Prod.mk.inj unknown
      obtain ⟨outcome, rfl⟩ := Prod.mk.inj answered
      refine .undecided outcome rfl rfl rfl fun decides => ?_
      have answered : (Solver.solve (Solver.assert (someViolated rows) run.session)).1 =
        .ok .unknown := verdict
      rcases decides.answers _ _ holds with sat | unsat
      · cases answered.symm.trans sat
      · cases answered.symm.trans unsat

section Literals

variable {number : Nat} {violations : List Expr}

theorem mem_literals {row : Nat} {literal : Symbol} {violation : Expr} :
    (row, literal, violation) ∈ literals number violations ↔ violations[row]? = some violation ∧
      violation.isFalse = false ∧ literal = (Name.violation number row).bool := by
  simp only [literals, List.mem_map, List.mem_filter, List.mem_zipIdx_iff_getElem?, Prod.exists,
    Prod.mk.injEq, Bool.not_eq_true']
  grind

/-- Every row has one literal. -/
theorem literals_pairwise (number : Nat) (violations : List Expr) :
    (literals number violations).Pairwise fun first second => first.1 ≠ second.1 := by
  rw [literals, List.pairwise_map]
  exact ((Flow.zipIdx_pairwise violations).imp fun before => Nat.ne_of_lt before).filter _

/-- The symbol is not one of the literals of a domain. -/
def NoLiteral (number : Nat) (s : Symbol) : Prop :=
  ∀ row, s ≠ (Name.violation number row).bool

/-- The names of literals are marked. -/
theorem noLiteral_of_head {s : Symbol} (other : s.name.toList.head? ≠ some '$') :
    NoLiteral number s := by
  rintro row rfl
  exact other (by simp [Name.bool, Name.symbol, Name.text, String.toList_append])

open Classical in
/-- The assignment in which the literals have the values of their violations. -/
noncomputable def withLiterals (number : Nat) (violations : List Expr) (m : Assignment) :
    Assignment :=
  m.override (fun s => decide (¬ NoLiteral number s)) (.ofNames fun name sort =>
    match name with
    | .violation _ row => .bool ((violations[row]?.map m.holds).getD false)
    | _ => sort.default)

theorem withLiterals_of_noLiteral {m : Assignment} {s : Symbol} (other : NoLiteral number s) :
    withLiterals number violations m s = m s := by
  classical exact Assignment.override_other (decide_eq_false (not_not_intro other))

theorem withLiterals_literal {m : Assignment} {row : Nat} {violation : Expr}
    (found : violations[row]? = some violation) :
    withLiterals number violations m (Name.violation number row).bool =
      .bool (m.holds violation) := by
  classical
  have isLiteral : ¬ NoLiteral number (Name.violation number row).bool := fun other => other row rfl
  have isProper : (Name.violation number row).IsProper := nofun
  refine (Assignment.override_chosen (decide_eq_true isLiteral)).trans ?_
  rw [Name.bool, Assignment.ofNames_symbol isProper rfl]
  simp [found]

theorem eval_withLiterals {m : Assignment} {e : Expr} {sort : ValueSort}
    (term : e.TermOver (NoLiteral number) sort) :
    e.eval (withLiterals number violations m).valuation = e.eval m.valuation :=
  term.eval_eq fun _ other => withLiterals_of_noLiteral other

/-- A model that violates a row answers the question, once the literals are set. -/
private theorem satisfies_asked {assumption : Expr} {m : Assignment}
    (assumed : assumption.TermOver (NoLiteral number) .bool)
    (terms : ∀ violation ∈ violations, violation.TermOver (NoLiteral number) .bool)
    (assumes : m.holds assumption = true) {row : Nat} {literal : Symbol} {violation : Expr}
    (isRow : (row, literal, violation) ∈ literals number violations)
    (violated : m.holds violation = true) :
    (withLiterals number violations m).Satisfies
      (asked assumption (literals number violations)) := by
  have values : ∀ entry ∈ literals number violations,
      (withLiterals number violations m).valuation entry.2.1 = some (.bool (m.holds entry.2.2)) ∧
        entry.2.2.eval (withLiterals number violations m).valuation =
          some (.bool (m.holds entry.2.2)) := by
    rintro ⟨other, literal, meaning⟩ isOther
    obtain ⟨found, -, rfl⟩ := mem_literals.mp isOther
    have term := terms meaning (List.mem_of_getElem? found)
    refine ⟨congrArg some (withLiterals_literal found), ?_⟩
    rw [eval_withLiterals term, m.eval_eq_holds term]
  intro formula isAsked
  rcases List.mem_cons.mp isAsked with rfl | isPosed
  · -- the literal of the violated row is true
    let n := withLiterals number violations m
    have known : ∀ e ∈ (literals number violations).map (fun (_, literal, _) => Expr.var literal),
        e.eval n.valuation = some (.bool (n.holds e)) := by
      intro e isLiteral
      obtain ⟨entry, isEntry, rfl⟩ := List.mem_map.mp isLiteral
      have value : (Expr.var entry.2.1).eval n.valuation = _ := (values entry isEntry).1
      exact value.trans (by rw [n.holds_of_eval value])
    rw [someViolated, Expr.eval_disj_of_bools n.holds known, List.any_eq_true.mpr]
    refine ⟨_, List.mem_map_of_mem isRow, n.holds_iff.mpr ?_⟩
    rw [← violated]
    exact (values _ isRow).1
  · rcases List.mem_cons.mp isPosed with rfl | isMeaning
    · rw [eval_withLiterals assumed]
      exact m.holds_iff.mp assumes
    · obtain ⟨entry, isEntry, rfl⟩ := List.mem_map.mp isMeaning
      obtain ⟨literal, meaning⟩ := values entry isEntry
      refine (Expr.equal_refines _ _).value ?_
      rw [Expr.eval, Expr.eval, literal, meaning]
      simp

/-- If no model of what is held answers the question, then no model in which the assumption is true
violates a row. -/
theorem holds_violation_eq_false {held : List Expr} {assumption : Expr}
    (heldTerms : ∀ formula ∈ held, formula.TermOver (NoLiteral number) .bool)
    (assumed : assumption.TermOver (NoLiteral number) .bool)
    (terms : ∀ violation ∈ violations, violation.TermOver (NoLiteral number) .bool)
    (none : literals number violations = [] ∨ ∀ m : Assignment, m.Satisfies held →
      ¬ m.Satisfies (asked assumption (literals number violations)))
    {m : Assignment} (satisfies : m.Satisfies held) (assumes : m.holds assumption = true)
    {violation : Expr} (isViolation : violation ∈ violations) : m.holds violation = false := by
  obtain ⟨row, found⟩ := List.mem_iff_getElem?.mp isViolation
  cases isFalse : violation.isFalse with
  | true =>
    obtain rfl : violation = .bool false := by
      cases violation <;> simp_all [Expr.isFalse]
    rfl
  | false =>
    have isRow : (row, (Name.violation number row).bool, violation) ∈ literals number violations :=
      mem_literals.mpr ⟨found, isFalse, rfl⟩
    rcases none with noRow | none
    · rw [noRow] at isRow
      cases isRow
    · refine Bool.eq_false_iff.mpr fun violated => none (withLiterals number violations m) ?_
        (satisfies_asked assumed terms assumes isRow violated)
      intro formula isHeld
      rw [eval_withLiterals (heldTerms formula isHeld)]
      exact satisfies formula isHeld

/-- A valuation that answers the question makes some literal true. -/
theorem exists_violated {v : Valuation} {assumption : Expr} {rows : List (Nat × Symbol × Expr)}
    (answers : ∀ formula ∈ asked assumption rows, formula.eval v = some (.bool true)) :
    ∃ row literal violation, (row, literal, violation) ∈ rows ∧ v.bool? literal = some true := by
  have isTrue := answers _ List.mem_cons_self
  have symbols : rows.map (fun (_, literal, _) => Expr.var literal) =
      (rows.map fun row => row.2.1).map .var := by
    rw [List.map_map]
    rfl
  rw [someViolated, symbols] at isTrue
  obtain ⟨s, isLiteral, value⟩ := Expr.exists_of_eval_disj isTrue
  obtain ⟨⟨row, literal, violation⟩, isRow, rfl⟩ := List.mem_map.mp isLiteral
  exact ⟨row, literal, violation, isRow, value⟩

end Literals

/-- A round that is answered leaves the session as it was, apart from the answer, and the domain
where it stands after what it was told. -/
theorem round_cases {run next : Run ι V σ} {changed : Bool} {scopes : List (List Expr)}
    (holds : Solver.Holds opened scopes run.session)
    (answered : run.round template = (.ok changed, next)) :
    Solver.Holds opened scopes next.session ∧
      ∃ assumption violations,
        TemplateDomain.assumption template (run.beginRound δ).search run.value = .ok assumption ∧
        TemplateDomain.violations template (run.beginRound δ).search run.value = .ok violations ∧
        ∃ settled : Run ι V σ, Told opened template scopes.flatten assumption
          (literals (TemplateDomain.number ι V template) violations) (run.beginRound δ) changed
          settled ∧
        next.search = TemplateDomain.endRound δ V settled.search ∧ next.value = settled.value ∧
        next.undecided = settled.undecided := by
  obtain ⟨scope, outer, rfl⟩ := holds.exists_cons
  -- the answer of the round is the answer of its one query, whose scope was closed
  obtain ⟨settled, queried, closed, rfl⟩ : ∃ settled : Run ι V σ,
      query template ({ run.beginRound δ with
        iterations := (run.beginRound δ).iterations + 1 } : Run ι V σ).push =
          (.ok changed, settled) ∧
      settled.pop.1 = .ok () ∧ next = settled.pop.2.endRound δ := by
    unfold round iterate at answered
    split at answered
    · cases answered
    · next outcome stood notMissing iterated =>
      obtain ⟨rfl, rfl⟩ := Prod.mk.inj answered
      split at iterated
      · cases iterated
      · cases iterated
      · next told settled queried =>
        split at iterated
        · next popped =>
          obtain ⟨same, rfl⟩ := Prod.mk.inj iterated
          cases same
          exact ⟨settled, queried, by rw [popped], by rw [popped]⟩
        · cases iterated
  unfold query at queried
  split at queried
  · cases queried
  · next rows asking posed =>
    obtain ⟨assumption, violations, assumed, violated, rfl, unmoved, inner, held, members⟩ :=
      pose_cases holds.push posed
    have asks : ∀ formula, formula ∈ (inner :: scope :: outer).flatten ↔ formula ∈
        Run.posed assumption (literals (TemplateDomain.number ι V template) violations) ++
          (scope :: outer).flatten := by
      intro formula
      rw [List.flatten_cons, List.mem_append, members, List.append_nil, List.mem_append]
    obtain ⟨_, still⟩ := holds_settle held queried
    have told := settle_cases held asks queried
    exact ⟨still.pop closed, assumption, violations, assumed, violated, settled,
      told.of_unmoved ⟨unmoved.search, unmoved.value, unmoved.undecided⟩, rfl, rfl, rfl⟩

section Decided

variable (decides : Solver.Decides opened)

private theorem exists_pose {run : Run ι V σ} {assumption : Expr} {violations : List Expr}
    (assumed : TemplateDomain.assumption template run.search run.value = .ok assumption)
    (violated : TemplateDomain.violations template run.search run.value = .ok violations) :
    ∃ next, run.pose template =
      (.ok (literals (TemplateDomain.number ι V template) violations), next) := by
  unfold pose
  rw [assumed]
  simp only [search_assert, value_assert, violated]
  exact ⟨_, rfl⟩

private theorem exists_refuteAll
    (refutes : ∀ (m : Valuation) (row : Nat) (search : ι) (value : V), ∃ changed,
      (TemplateDomain.refute template m row search value).outcome = .ok changed)
    (rows : List (Nat × Symbol × Expr)) (run : Run ι V σ) :
    ∃ changed, (refuteAll template rows run).1 = .ok changed := by
  induction rows generalizing run with
  | nil => exact ⟨false, rfl⟩
  | cons first rest ih =>
    obtain ⟨row, literal, violation⟩ := first
    unfold refuteAll
    split
    · obtain ⟨now, outcome⟩ := refutes (Solver.valuation run.session) row run.search run.value
      obtain ⟨later, answered⟩ := ih (run.adopt (TemplateDomain.refute template
        (Solver.valuation run.session) row run.search run.value)).2
      refine ⟨now || later, ?_⟩
      simp only [adopt, outcome] at answered ⊢
      rw [answered]
      rfl
    · exact ih run

include decides in
private theorem exists_settle {run : Run ι V σ} {rows : List (Nat × Symbol × Expr)}
    (holds : Solver.Holds opened (scope :: outer) run.session)
    (refutes : ∀ (m : Valuation) (row : Nat) (search : ι) (value : V), ∃ changed,
      (TemplateDomain.refute template m row search value).outcome = .ok changed)
    (confirms : ∃ changed,
      (TemplateDomain.confirm template run.search run.value).outcome = .ok changed) :
    ∃ changed next, run.settle template rows = (.ok changed, next) := by
  obtain ⟨changed, outcome⟩ := confirms
  unfold settle
  split
  · exact ⟨changed, _, by rw [adopt, outcome]⟩
  · generalize asked : (run.assert (someViolated rows)).solve = answered
    have answer : answered.1 = .ok .sat ∨ answered.1 = .ok .unsat := by
      rw [← asked]
      exact decides.answers _ _ (holds.assert _)
    have search : answered.2.search = run.search := by rw [← asked]; rfl
    have value : answered.2.value = run.value := by rw [← asked]; rfl
    obtain ⟨verdict, solved⟩ := answered
    rcases answer with rfl | rfl
    · obtain ⟨changed, told⟩ := exists_refuteAll refutes rows solved
      exact ⟨changed, _, Prod.ext told rfl⟩
    · simp only at search value ⊢
      rw [search, value, adopt, outcome]
      exact ⟨changed, _, rfl⟩

include decides in
/-- A session that decides every query answers a round of which all parts can be asked for. -/
theorem exists_round {run : Run ι V σ} {scopes : List (List Expr)} {assumption : Expr}
    {violations : List Expr} (holds : Solver.Holds opened scopes run.session)
    (assumed : TemplateDomain.assumption template (run.beginRound δ).search run.value =
      .ok assumption)
    (violated : TemplateDomain.violations template (run.beginRound δ).search run.value =
      .ok violations)
    (refutes : ∀ (m : Valuation) (row : Nat) (search : ι) (value : V), ∃ changed,
      (TemplateDomain.refute template m row search value).outcome = .ok changed)
    (confirms : ∃ changed, (TemplateDomain.confirm template (run.beginRound δ).search
      run.value).outcome = .ok changed) :
    ∃ changed next, run.round template = (.ok changed, next) := by
  obtain ⟨scope, outer, rfl⟩ := holds.exists_cons
  generalize begins : ({ run.beginRound δ with
    iterations := (run.beginRound δ).iterations + 1 } : Run ι V σ).push = begun
  have held : Solver.Holds opened ([] :: scope :: outer) begun.session := by
    rw [← begins]
    exact holds.push
  obtain ⟨asking, posed⟩ : ∃ asking, begun.pose template =
      (.ok (literals (TemplateDomain.number ι V template) violations), asking) := by
    rw [← begins]
    exact exists_pose assumed violated
  obtain ⟨_, _, -, -, -, unmoved, inner, still, members⟩ := pose_cases held posed
  obtain ⟨changed, settled, told⟩ : ∃ changed settled, asking.settle template
      (literals (TemplateDomain.number ι V template) violations) = (.ok changed, settled) := by
    refine exists_settle decides still refutes ?_
    rw [unmoved.search, unmoved.value, ← begins]
    exact confirms
  obtain ⟨_, still⟩ := holds_settle still told
  have closed : settled.pop.1 = .ok () := decides.closes _ _ _ _ still
  have popped : settled.pop = (.ok (), settled.pop.2) := Prod.ext closed rfl
  have queried : begun.query template = (.ok changed, settled) := by
    rw [query, posed]
    exact told
  refine ⟨changed, settled.pop.2.endRound δ, ?_⟩
  unfold round iterate
  rw [begins, queried]
  simp only
  rw [popped]

end Decided

variable [FiniteDomain δ ι V]

/-- What every round that changes something keeps, what holds after any other round and what holds
when there is nothing left to try give what holds at the end, with or without a failure. -/
theorem fixpoint_ends (Inv : Run ι V σ → Prop) (Post : Except Failure Unit → Run ι V σ → Prop)
    (fails : ∀ (run next : Run ι V σ) (failure : Failure), Inv run →
      TemplateDomain.hasWork δ V run.search = true →
      run.round template = (.error failure, next) → Post (.error failure) next)
    (continues : ∀ run next : Run ι V σ, Inv run → TemplateDomain.hasWork δ V run.search = true →
      run.round template = (.ok true, next) → Inv next)
    (stops : ∀ run next : Run ι V σ, Inv run → TemplateDomain.hasWork δ V run.search = true →
      run.round template = (.ok false, next) → Post (.ok ()) next)
    (idles : ∀ run : Run ι V σ, Inv run → TemplateDomain.hasWork δ V run.search = false →
      Post (.ok ()) run)
    {run : Run ι V σ} (start : Inv run) :
    Post (run.fixpoint template).1 (run.fixpoint template).2 := by
  induction left : run.work template using Nat.strongRecOn generalizing run with
  | ind n ih =>
    rw [fixpoint]
    split
    · next working =>
      split
      · next settled => exact fails run _ _ start working settled
      · next settled => exact stops run _ start working settled
      · next next settled =>
        have paid := work_round_lt template run working (by rw [settled])
        rw [settled, left] at paid
        exact ih _ paid (continues run next start working settled) rfl
    · next idle => exact idles run start (by simpa using idle)

/-- What every round that changes something keeps, what holds after a round that changes nothing and
what holds when there is nothing left to try give what holds at the end. -/
theorem fixpoint_induction (Inv Post : Run ι V σ → Prop)
    (continues : ∀ run next : Run ι V σ, Inv run → TemplateDomain.hasWork δ V run.search = true →
      run.round template = (.ok true, next) → Inv next)
    (stops : ∀ run next : Run ι V σ, Inv run → TemplateDomain.hasWork δ V run.search = true →
      run.round template = (.ok false, next) → Post next)
    (idles : ∀ run : Run ι V σ, Inv run → TemplateDomain.hasWork δ V run.search = false → Post run)
    {run last : Run ι V σ} (start : Inv run)
    (answered : run.fixpoint template = (.ok (), last)) : Post last := by
  have ended := fixpoint_ends Inv (fun outcome last => outcome = .ok () → Post last)
    (fun _ _ _ _ _ _ => nofun) continues (fun run next inv working settled _ =>
      stops run next inv working settled) (fun run inv idle _ => idles run inv idle) start
  rw [answered] at ended
  exact ended rfl

/-- An iteration ends if every round can be answered. -/
theorem exists_fixpoint (Inv Post : Run ι V σ → Prop)
    (rounds : ∀ run : Run ι V σ, Inv run → TemplateDomain.hasWork δ V run.search = true →
      ∃ changed next, run.round template = (.ok changed, next) ∧
        (if changed then Inv next else Post next))
    (idles : ∀ run : Run ι V σ, Inv run → TemplateDomain.hasWork δ V run.search = false → Post run)
    {run : Run ι V σ} (start : Inv run) :
    ∃ last, run.fixpoint template = (.ok (), last) ∧ Post last := by
  suffices ended : (run.fixpoint template).1 = .ok () ∧ Post (run.fixpoint template).2 from
    ⟨_, Prod.ext ended.1 rfl, ended.2⟩
  refine fixpoint_ends Inv (fun outcome last => outcome = .ok () ∧ Post last) ?_ ?_ ?_ ?_ start
  · intro run next failure inv working failed
    obtain ⟨changed, after, answered, -⟩ := rounds run inv working
    rw [answered] at failed
    cases failed
  · intro run next inv working continued
    obtain ⟨changed, after, answered, kept⟩ := rounds run inv working
    rw [answered] at continued
    cases continued
    exact kept
  · intro run next inv working stopped
    obtain ⟨changed, after, answered, kept⟩ := rounds run inv working
    rw [answered] at stopped
    cases stopped
    exact ⟨rfl, kept⟩
  · intro run inv idle
    exact ⟨rfl, idles run inv idle⟩

end Run

end TemplateAnalysis
