import TemplateAnalysis.Proofs.Analysis
import TemplateAnalysis.Template.Predicates
import TemplateAnalysis.Template.Ranking

/-! # What sessions answered

The transcript of an exploration tells what the sessions answered: the session of the procedure, and
those that the domain keeps for itself. An exploration fails with the first error that any of them
raised, if the domain passes on what its own sessions raise; after it the transcript goes on only
until the scope of the query is closed. Queries that stay open are counted, in part by the run and
in part by the domain. If the domain counts those of its own sessions, the two counts together grow
by the number of such queries in the transcript.
-/

namespace TemplateAnalysis

/-- What was raised in place of an answer. -/
def errorOf {ε α : Type} : Except ε α → Option ε
  | .ok _ => none
  | .error error => some error

/-- The error of a session that led to the failure. -/
def Failure.raised? : Failure → Option SolverError
  | .solver error => some error
  | .missingRow _ => none

/-- The error of a session that an outcome passes on. -/
def raised {α : Type} (outcome : Except Failure α) : Option SolverError :=
  (errorOf outcome).bind Failure.raised?

/-- The error that a session raised when it was asked. -/
def Action.error? : Action → Option SolverError
  | .popped answer => errorOf answer
  | .solved answer => errorOf answer
  | _ => none

/-- The event is a query that stayed open. -/
def Event.staysOpen (event : Event) : Bool :=
  match event.action with
  | .solved (.ok .unknown) => true
  | _ => false

namespace Transcript

/-- The errors that sessions raised, in order. -/
def errors (transcript : Transcript) : List SolverError :=
  transcript.filterMap fun event => event.action.error?

/-- The number of queries that stayed open. -/
def openAnswers (transcript : Transcript) : Nat := transcript.countP Event.staysOpen

@[simp] theorem errors_append (first second : Transcript) :
    errors (first ++ second) = errors first ++ errors second := List.filterMap_append

@[simp] theorem openAnswers_append (first second : Transcript) :
    openAnswers (first ++ second) = openAnswers first + openAnswers second := List.countP_append

theorem openAnswers_eq_zero_iff {transcript : Transcript} :
    transcript.openAnswers = 0 ↔ ∀ event ∈ transcript, event.action ≠ .solved (.ok .unknown) := by
  have staysOpen_iff : ∀ event : Event,
      event.staysOpen = true ↔ event.action = .solved (.ok .unknown) := by
    rintro ⟨_, action⟩
    unfold Event.staysOpen
    split <;> simp_all
  simp only [openAnswers, List.countP_eq_zero, staysOpen_iff, ne_eq]

end Transcript

/-- A reply that fails with the first error that the sessions of the domain raised. -/
def Reply.Candid {ι V : Type} (reply : Reply ι V) : Prop :=
  reply.transcript.errors.head? = raised reply.outcome

/-- A reply to a search that counts the queries which the sessions of the domain left open. -/
def Reply.Counted {ι V : Type} (δ : Type) [TemplateDomain δ ι V] (search : ι)
    (reply : Reply ι V) : Prop :=
  TemplateDomain.openAnswers δ V reply.search =
    TemplateDomain.openAnswers δ V search + reply.transcript.openAnswers

/-- A template domain that passes on what its sessions raise: a reply fails with the first error
that they raised, and nothing else that is asked of the domain involves a session. -/
class CandidDomain (δ ι V : Type) [TemplateDomain δ ι V] : Prop where
  refute : ∀ (d : δ) (m : Valuation) (row : Nat) (s : ι) (v : V),
    (TemplateDomain.refute d m row s v).Candid
  confirm : ∀ (d : δ) (s : ι) (v : V), (TemplateDomain.confirm d s v).Candid
  giveUp : ∀ (d : δ) (s : ι) (v : V), (TemplateDomain.giveUp d s v).Candid
  raised_assumption : ∀ (d : δ) (s : ι) (v : V), raised (TemplateDomain.assumption d s v) = none
  raised_violations : ∀ (d : δ) (s : ι) (v : V), raised (TemplateDomain.violations d s v) = none
  raised_project : ∀ (d : δ) (v : V) (symbols : SymbolSet),
    raised (TemplateDomain.project ι d v symbols) = none

/-- A template domain that counts the queries which its sessions leave open, and never forgets
any. -/
class CountingDomain (δ ι V : Type) [TemplateDomain δ ι V] : Prop where
  refute : ∀ (d : δ) (m : Valuation) (row : Nat) (s : ι) (v : V),
    (TemplateDomain.refute d m row s v).Counted δ s
  confirm : ∀ (d : δ) (s : ι) (v : V), (TemplateDomain.confirm d s v).Counted δ s
  giveUp : ∀ (d : δ) (s : ι) (v : V), (TemplateDomain.giveUp d s v).Counted δ s
  restart : ∀ (d : δ) (s : ι),
    TemplateDomain.openAnswers δ V (TemplateDomain.restart V d s) = TemplateDomain.openAnswers δ V s
  beginRound : ∀ s : ι,
    TemplateDomain.openAnswers δ V (TemplateDomain.beginRound δ V s) =
      TemplateDomain.openAnswers δ V s
  endRound : ∀ s : ι,
    TemplateDomain.openAnswers δ V (TemplateDomain.endRound δ V s) = TemplateDomain.openAnswers δ V s
  refine : ∀ (d larger : δ) (s next : ι), TemplateDomain.refine V d s = some (larger, next) →
    TemplateDomain.openAnswers δ V next = TemplateDomain.openAnswers δ V s

section Raised

variable {α β : Type}

@[simp] theorem raised_ok (a : α) : raised (.ok a) = none := rfl

@[simp] theorem raised_solver (error : SolverError) :
    raised (.error (.solver error) : Except Failure α) = some error := rfl

@[simp] theorem raised_missingRow (row : Nat) :
    raised (.error (.missingRow row) : Except Failure α) = none := rfl

theorem raised_eq_some_iff {outcome : Except Failure α} {error : SolverError} :
    raised outcome = some error ↔ outcome = .error (.solver error) := by
  rcases outcome with (_ | _) | _ <;> simp [raised, errorOf, Failure.raised?]

@[simp] theorem raised_map (f : α → β) (outcome : Except Failure α) :
    raised (outcome.map f) = raised outcome := by
  cases outcome <;> rfl

/-- A failure passed on is the same failure. -/
theorem raised_error (failure : Failure) :
    raised (.error failure : Except Failure α) = raised (.error failure : Except Failure β) := rfl

theorem raised_bind {outcome : Except Failure α} {f : α → Except Failure β}
    (first : raised outcome = none) (second : ∀ a, raised (f a) = none) :
    raised (outcome >>= f) = none := by
  cases outcome with
  | error failure => exact first
  | ok a => exact second a

theorem raised_mapM {f : α → Except Failure β} {xs : List α}
    (each : ∀ x, raised (f x) = none) : raised (xs.mapM f) = none := by
  induction xs with
  | nil => rfl
  | cons x rest ih =>
    rw [List.mapM_cons]
    exact raised_bind (each x) fun _ => raised_bind ih fun _ => rfl

/-- A conjunction fails only if one of its parts does. -/
theorem Template.mem_of_conjParts_error {parts : List (Except Failure Expr)} {failure : Failure}
    (failed : Template.conjParts parts = .error failure) : .error failure ∈ parts := by
  unfold Template.conjParts at failed
  induction parts with
  | nil => cases failed
  | cons part rest ih =>
    cases part with
    | error first =>
      cases failed
      exact List.mem_cons_self
    | ok part =>
      refine List.mem_cons_of_mem _ (ih ?_)
      rw [Template.partsUntilFalse] at failed
      split at failed
      · cases failed
      · cases later : Template.partsUntilFalse rest with
        | ok kept => simp [later, Except.map] at failed
        | error other =>
          rw [later] at failed
          cases failed
          rfl

theorem raised_conjParts {parts : List (Except Failure Expr)}
    (each : ∀ part ∈ parts, raised part = none) : raised (Template.conjParts parts) = none := by
  cases failed : Template.conjParts parts with
  | ok whole => rfl
  | error failure => exact each _ (Template.mem_of_conjParts_error failed)

end Raised

namespace Run

variable {δ ι V σ : Type} [TemplateDomain δ ι V]

/-- A run goes on to another one, and the sessions are asked what is in the given transcript. If the
domain counts the queries that its sessions leave open, then every query that stays open is counted,
by the run or by the domain. -/
structure Tells (δ : Type) [TemplateDomain δ ι V] (asked : Transcript) (run next : Run ι V σ) :
    Prop where
  transcript : next.transcript = run.transcript ++ asked
  openAnswers : CountingDomain δ ι V → TemplateDomain.openAnswers δ V run.search ≤
    TemplateDomain.openAnswers δ V next.search
  counted : CountingDomain δ ι V → next.undecided + TemplateDomain.openAnswers δ V next.search =
    run.undecided + TemplateDomain.openAnswers δ V run.search + asked.openAnswers

/-- A run goes on to another one, and if the domain passes on what its sessions raise, the given
error is the first that a session raises on the way. -/
def Reports (δ : Type) [TemplateDomain δ ι V] (error : Option SolverError) (run next : Run ι V σ) :
    Prop :=
  ∃ asked, Tells δ asked run next ∧ (CandidDomain δ ι V → asked.errors.head? = error)

section Steps

variable {run next last : Run ι V σ} {first second : Option SolverError}

theorem Reports.exists_asked [CandidDomain δ ι V] (reports : Reports δ first run next) :
    ∃ asked, next.transcript = run.transcript ++ asked ∧ asked.errors.head? = first := by
  obtain ⟨asked, tells, raised⟩ := reports
  exact ⟨asked, tells.transcript, raised inferInstance⟩

theorem Reports.of_eq (reports : Reports δ first run next)
    (same : CandidDomain δ ι V → first = second) : Reports δ second run next := by
  obtain ⟨asked, tells, raised⟩ := reports
  exact ⟨asked, tells, fun candid => (raised candid).trans (same candid)⟩

theorem Reports.trans (before : Reports δ first run next) (after : Reports δ second next last) :
    Reports δ (first.or second) run last := by
  obtain ⟨asked, tells, raised⟩ := before
  obtain ⟨later, tells', raised'⟩ := after
  refine ⟨asked ++ later, ⟨?_, fun counting => ?_, fun counting => ?_⟩, fun candid => ?_⟩
  · rw [tells'.transcript, tells.transcript, List.append_assoc]
  · exact Nat.le_trans (tells.openAnswers counting) (tells'.openAnswers counting)
  · rw [tells'.counted counting, tells.counted counting, Transcript.openAnswers_append,
      Nat.add_assoc]
  · rw [Transcript.errors_append, List.head?_append, raised candid, raised' candid]

/-- Nothing is asked. -/
theorem reports_none (transcript : next.transcript = run.transcript)
    (undecided : next.undecided = run.undecided)
    (openAnswers : CountingDomain δ ι V → TemplateDomain.openAnswers δ V next.search =
      TemplateDomain.openAnswers δ V run.search) : Reports δ none run next := by
  refine ⟨[], ⟨?_, fun counting => ?_, fun counting => ?_⟩, fun _ => rfl⟩
  · rw [transcript, List.append_nil]
  · exact Nat.le_of_eq (openAnswers counting).symm
  · rw [undecided, openAnswers counting]
    rfl

theorem reports_refl (run : Run ι V σ) : Reports δ none run run :=
  reports_none rfl rfl fun _ => rfl

/-- The session of the procedure is asked once. -/
theorem reports_event (event : Event) (transcript : next.transcript = run.transcript ++ [event])
    (search : next.search = run.search)
    (undecided : next.undecided = run.undecided + event.staysOpen.toNat) :
    Reports δ event.action.error? run next := by
  have counted : Transcript.openAnswers [event] = event.staysOpen.toNat := by
    cases isOpen : event.staysOpen <;> simp [Transcript.openAnswers, isOpen]
  refine ⟨[event], ⟨transcript, fun _ => ?_, fun _ => ?_⟩, fun _ => ?_⟩
  · exact Nat.le_of_eq (by rw [search])
  · rw [search, counted]
    omega
  · cases raises : event.action.error? <;> simp [Transcript.errors, raises]

/-- The sessions of the domain are asked. -/
theorem reports_adopt (run : Run ι V σ) {reply : Reply ι V}
    (candid : CandidDomain δ ι V → reply.Candid)
    (counted : CountingDomain δ ι V → reply.Counted δ run.search) :
    Reports δ (raised reply.outcome) run (run.adopt reply).2 := by
  refine ⟨reply.transcript, ⟨rfl, fun counting => ?_, fun counting => ?_⟩, candid⟩
  · change TemplateDomain.openAnswers δ V run.search ≤ TemplateDomain.openAnswers δ V reply.search
    rw [counted counting]
    exact Nat.le_add_right _ _
  · change run.undecided + TemplateDomain.openAnswers δ V reply.search = _
    rw [counted counting, Nat.add_assoc]

variable [Solver σ]

theorem reports_assert (run : Run ι V σ) (formula : Expr) :
    Reports δ none run (run.assert formula) :=
  reports_event ⟨_, .asserted formula⟩ rfl rfl rfl

theorem reports_push (run : Run ι V σ) :
    Reports δ none run ({ run with iterations := run.iterations + 1 } : Run ι V σ).push :=
  reports_event ⟨_, .pushed⟩ rfl rfl rfl

theorem reports_pop (run : Run ι V σ) : Reports δ (errorOf run.pop.1) run run.pop.2 :=
  reports_event ⟨_, .popped run.pop.1⟩ rfl rfl rfl

/-- A query that is decided or fails. -/
theorem reports_solve (run : Run ι V σ) (decided : run.solve.1 ≠ .ok .unknown) :
    Reports δ (errorOf run.solve.1) run run.solve.2 := by
  let event : Event := ⟨Solver.id run.solve.2.session, .solved run.solve.1⟩
  have closed : event.staysOpen = false := by
    unfold Event.staysOpen
    split
    · next stays => exact absurd (Action.solved.inj stays) decided
    · rfl
  refine reports_event event rfl rfl ?_
  rw [closed]
  rfl

/-- A query that stays open is counted. -/
theorem reports_undecided (run : Run ι V σ) (stays : run.solve.1 = .ok .unknown) :
    Reports δ none run { run.solve.2 with undecided := run.solve.2.undecided + 1 } := by
  have asked : Reports δ (errorOf run.solve.1) run
      { run.solve.2 with undecided := run.solve.2.undecided + 1 } :=
    reports_event ⟨Solver.id run.solve.2.session, .solved run.solve.1⟩ rfl rfl (by rw [stays]; rfl)
  rw [stays] at asked
  exact asked

end Steps

variable [Solver σ]

theorem reports_pose (template : δ) (run : Run ι V σ) :
    Reports δ (raised (run.pose template).1) run (run.pose template).2 := by
  have asserts : ∀ (rows : List (Nat × Symbol × Expr)) (run : Run ι V σ),
      Reports δ none run
        (rows.foldl (fun run row => run.assert (Expr.equal (.var row.2.1) row.2.2)) run) := by
    intro rows
    induction rows with
    | nil => exact reports_refl
    | cons row rest ih => exact fun run => (reports_assert run _).trans (ih _)
  unfold pose
  split
  · next failure failed =>
    refine (reports_refl run).of_eq fun candid => ?_
    rw [raised_error (β := Expr), ← failed, candid.raised_assumption]
  · dsimp only [search_assert, value_assert]
    split
    · next failure failed =>
      refine (reports_assert run _).of_eq fun candid => ?_
      rw [raised_error (β := List Expr), ← failed, candid.raised_violations]
    · exact (reports_assert run _).trans (asserts _ _)

theorem reports_refuteAll (template : δ) (rows : List (Nat × Symbol × Expr)) (run : Run ι V σ) :
    Reports δ (raised (run.refuteAll template rows).1) run (run.refuteAll template rows).2 := by
  induction rows generalizing run with
  | nil => exact reports_refl run
  | cons first rest ih =>
    obtain ⟨row, literal, violation⟩ := first
    unfold refuteAll
    split
    · have told := reports_adopt (δ := δ) run
        (fun candid => candid.refute template (Solver.valuation run.session) row run.search run.value)
        (fun counting => counting.refute template _ row run.search run.value)
      split
      · next failure failed adopted =>
        obtain ⟨outcome, rfl⟩ := Prod.mk.inj adopted
        rw [outcome] at told
        exact told
      · next changed told' adopted =>
        obtain ⟨outcome, rfl⟩ := Prod.mk.inj adopted
        rw [outcome] at told
        dsimp only
        rw [raised_map]
        exact told.trans (ih _)
    · exact ih run

theorem reports_settle (template : δ) (rows : List (Nat × Symbol × Expr)) (run : Run ι V σ) :
    Reports δ (raised (run.settle template rows).1) run (run.settle template rows).2 := by
  have confirms : ∀ run : Run ι V σ,
      let confirmed := run.adopt (TemplateDomain.confirm template run.search run.value)
      Reports δ (raised confirmed.1) run confirmed.2 := fun run =>
    reports_adopt run (fun candid => candid.confirm template run.search run.value)
      (fun counting => counting.confirm template run.search run.value)
  have asserted := reports_assert (δ := δ) run (someViolated rows)
  have asked : ∀ answer next, (run.assert (someViolated rows)).solve = (answer, next) →
      answer ≠ .ok .unknown → Reports δ (errorOf answer) run next := by
    intro answer next solved decided
    have told := reports_solve (δ := δ) (run.assert (someViolated rows))
      (by rw [solved]; exact decided)
    rw [solved] at told
    exact asserted.trans told
  unfold settle
  split
  · exact confirms run
  · split
    · next solved => exact asked _ _ solved nofun
    · next solved => exact (asked _ _ solved nofun).trans (reports_refuteAll template rows _)
    · next solved => exact (asked _ _ solved nofun).trans (confirms _)
    · next solved =>
      have told := reports_undecided (δ := δ) (run.assert (someViolated rows))
        (congrArg Prod.fst solved)
      rw [show (run.assert (someViolated rows)).solve = _ from solved] at told
      exact (asserted.trans told).trans (reports_adopt _
        (fun candid => candid.giveUp template _ _) (fun counting => counting.giveUp template _ _))

theorem reports_query (template : δ) (run : Run ι V σ) :
    Reports δ (raised (run.query template).1) run (run.query template).2 := by
  have posed := reports_pose template run
  unfold query
  generalize run.pose template = asking at posed ⊢
  obtain ⟨outcome, asking⟩ := asking
  cases outcome with
  | error failure => exact posed
  | ok rows => exact posed.trans (reports_settle template rows asking)

/-- A query in a scope of its own fails with the first error that was raised, also if closing the
scope fails as well. -/
theorem reports_iterate (template : δ) (run : Run ι V σ) :
    Reports δ (raised (run.iterate template).1) run (run.iterate template).2 := by
  have queried := (reports_push run).trans (reports_query template _)
  unfold iterate
  split
  · next asked =>
    rw [asked] at queried
    exact queried
  · next asked =>
    rw [asked] at queried
    exact queried.trans (reports_pop _)
  · next stood asked =>
    rw [asked] at queried
    have closed := queried.trans (reports_pop _)
    split
    · next popped =>
      rw [popped] at closed
      exact closed
    · next popped =>
      rw [popped] at closed
      exact closed

theorem reports_round (template : δ) (run : Run ι V σ) :
    Reports δ (raised (run.round template).1) run (run.round template).2 := by
  have begun : Reports δ none run (run.beginRound δ) :=
    reports_none rfl rfl fun counting => counting.beginRound run.search
  have ended : ∀ run : Run ι V σ, Reports δ none run (run.endRound δ) := fun run =>
    reports_none rfl rfl fun counting => counting.endRound run.search
  have iterated := begun.trans (reports_iterate template _)
  unfold round
  split
  · next failed =>
    rw [failed] at iterated
    exact iterated
  · next outcome stood _ answered =>
    rw [answered] at iterated
    have closed := iterated.trans (ended stood)
    rw [Option.none_or, Option.or_none] at closed
    exact closed

variable [FiniteDomain δ ι V]

/-- An iteration fails with the first error that was raised. -/
theorem reports_fixpoint (template : δ) (run : Run ι V σ) :
    Reports δ (raised (run.fixpoint template).1) run (run.fixpoint template).2 := by
  have rounds : ∀ {outcome : Except Failure Bool} {reached next : Run ι V σ},
      Reports δ none run reached → reached.round template = (outcome, next) →
        Reports δ (raised outcome) run next := by
    intro outcome reached next before answered
    have round := reports_round template reached
    rw [answered] at round
    exact before.trans round
  refine fixpoint_ends (Reports δ none run) (fun outcome last => Reports δ (raised outcome) run last)
    ?_ ?_ ?_ ?_ (reports_refl run)
  · exact fun _ _ _ before _ failed => rounds before failed
  · exact fun _ _ before _ answered => rounds before answered
  · exact fun _ _ before _ answered => rounds before answered
  · exact fun _ before _ => before

/-- An exploration fails with the first error that was raised. -/
theorem reports_explore (template : δ) (run : Run ι V σ) :
    Reports δ (raised (run.explore template).1) run (run.explore template).2.2 := by
  have fixpoints : ∀ {template : δ} {outcome : Except Failure Unit} {reached last : Run ι V σ},
      Reports δ none run reached →
      (reached.restarted template).fixpoint template = (outcome, last) →
        Reports δ (raised outcome) run last := by
    intro template outcome reached last before fixed
    have restarts : Reports δ none reached (reached.restarted template) :=
      reports_none rfl rfl fun counting => counting.restart template reached.search
    have iterated := reports_fixpoint template (reached.restarted template)
    rw [fixed] at iterated
    exact (before.trans restarts).trans iterated
  refine explore_ends (fun _ => Reports δ none run)
    (fun outcome _ last => Reports δ (raised outcome) run last) ?_ ?_ ?_ ?_ run (reports_refl run)
  · exact fun _ _ _ _ before fixed => fixpoints before fixed
  · exact fun _ _ _ before fixed _ => fixpoints before fixed
  · exact fun _ _ _ before fixed _ _ => fixpoints before fixed
  · intro template larger reached last search before fixed _ enlarged
    exact (fixpoints before fixed).trans (reports_none rfl rfl fun counting =>
      counting.refine template larger last.search search enlarged)

end Run

section Domains

instance : CandidDomain PredicateTemplate PredicateSearch PredicateValue where
  refute _ _ row search value := by
    change (PredicateTemplate.refute row search value).Candid
    unfold PredicateTemplate.refute
    split <;> rfl
  confirm _ search value := by
    change (PredicateTemplate.confirm search value).Candid
    unfold PredicateTemplate.confirm
    split
    · rfl
    · split <;> rfl
  giveUp _ search value := by
    change (PredicateTemplate.giveUp search value).Candid
    unfold PredicateTemplate.giveUp
    split <;> rfl
  raised_assumption template search value := by
    refine raised_conjParts fun part isPart => ?_
    obtain ⟨⟨row, i⟩, -, rfl⟩ := List.mem_map.mp isPart
    dsimp only
    split
    · rfl
    · split <;> rfl
  raised_violations _ _ _ := rfl
  raised_project template value symbols := by
    refine raised_conjParts fun part isPart => ?_
    obtain ⟨⟨row, i⟩, -, made⟩ := List.mem_filterMap.mp isPart
    dsimp only at made
    split at made
    · cases made
      rfl
    · obtain ⟨-, same⟩ := Option.ite_none_right_eq_some.mp made
      cases same
      rfl
    · cases made

/-- Predicates are searched for without sessions of their own. -/
instance : CountingDomain PredicateTemplate PredicateSearch PredicateValue where
  refute _ _ row search value := by
    change 0 = 0 + (PredicateTemplate.refute row search value).transcript.openAnswers
    unfold PredicateTemplate.refute
    split <;> rfl
  confirm _ search value := by
    change 0 = 0 + (PredicateTemplate.confirm search value).transcript.openAnswers
    unfold PredicateTemplate.confirm
    split
    · rfl
    · split <;> rfl
  giveUp _ search value := by
    change 0 = 0 + (PredicateTemplate.giveUp search value).transcript.openAnswers
    unfold PredicateTemplate.giveUp
    split <;> rfl
  restart _ _ := rfl
  beginRound _ := rfl
  endRound _ := rfl
  refine _ _ _ _ _ := rfl

variable {φ τ : Type} [Solver τ] [SessionSource φ τ]

/-- A session that is opened raises no error and leaves nothing open. -/
theorem silent_obtain (refine : Bool) (held : Option τ) (source : φ) :
    (SessionSource.obtain refine held source).2.2.errors = [] ∧
      (SessionSource.obtain refine held source).2.2.openAnswers = 0 := by
  cases held <;> exact ⟨rfl, rfl⟩

/-- A search for coefficients asks one query. -/
theorem RankingSearch.candid_ask (search : RankingSearch φ τ) (row : Nat) (constraint : Expr) :
    let asked := search.ask row constraint
    asked.transcript.errors.head? = errorOf asked.verdict ∧
      asked.search.openAnswers = search.openAnswers + asked.transcript.openAnswers := by
  obtain ⟨errors, openAnswers⟩ := silent_obtain false (search.sessions.lookup row) search.source
  unfold ask
  generalize SessionSource.obtain false (search.sessions.lookup row) search.source = obtained at *
  obtain ⟨session, source, opening⟩ := obtained
  dsimp only at errors openAnswers ⊢
  generalize Solver.solve (Solver.assert constraint session) = solved
  obtain ⟨verdict, session⟩ := solved
  dsimp only
  rw [Transcript.errors_append, Transcript.openAnswers_append, errors, openAnswers]
  match verdict with
  | .error _ => exact ⟨rfl, rfl⟩
  | .ok .sat => exact ⟨rfl, rfl⟩
  | .ok .unsat => exact ⟨rfl, rfl⟩
  | .ok .unknown => exact ⟨rfl, rfl⟩

instance : CandidDomain RankingTemplate (RankingSearch φ τ) RankingValue where
  refute template m row search value := by
    change (template.refute m row search value).Candid
    have refuted := template.refuted_refute m row search value
    generalize template.refute m row search value = reply at refuted ⊢
    cases refuted with
    | failed _ _ isAsked told | answered _ _ isAsked told | unplaced _ _ isAsked told =>
      subst isAsked
      exact (search.candid_ask row _).1.trans (congrArg errorOf told)
    | _ => rfl
  confirm _ _ _ := rfl
  giveUp _ _ _ := rfl
  raised_assumption _ _ _ := rfl
  raised_violations template _ value := by
    refine raised_mapM fun ⟨row, i⟩ => ?_
    dsimp only
    split <;> rfl
  raised_project template value symbols := by
    refine raised_conjParts fun part isPart => ?_
    obtain ⟨⟨row, i⟩, -, made⟩ := List.mem_filterMap.mp isPart
    dsimp only at made
    split at made
    · cases made
      rfl
    · obtain ⟨-, same⟩ := Option.ite_none_right_eq_some.mp made
      cases same
      rfl
    · cases made

instance : CountingDomain RankingTemplate (RankingSearch φ τ) RankingValue where
  refute template m row search value := by
    change (template.refute m row search value).Counted RankingTemplate search
    have refuted := template.refuted_refute m row search value
    generalize template.refute m row search value = reply at refuted ⊢
    cases refuted with
    | failed _ _ isAsked _ | answered _ _ isAsked _ | unplaced _ _ isAsked _ =>
      subst isAsked
      exact (search.candid_ask row _).2
    | _ => rfl
  confirm _ _ _ := rfl
  giveUp _ _ _ := rfl
  restart _ _ := rfl
  beginRound _ := rfl
  endRound _ := rfl
  refine template _ search _ enlarged := by
    change template.refine? search = _ at enlarged
    unfold RankingTemplate.refine? at enlarged
    split at enlarged
    · cases enlarged
    · cases enlarged
      rfl

end Domains

section Analyze

variable {δ ι V φ σ : Type} [TemplateDomain δ ι V] [FiniteDomain δ ι V] [Solver σ]
  [SessionSource φ σ] {store : Store φ σ} {name : String} {ssa : Ssa}

theorem silent_session? {fetched : Store φ σ} {session : σ} {opening : Transcript}
    (fetches : store.session? name = some (session, fetched, opening)) :
    opening.errors = [] ∧ opening.openAnswers = 0 := by
  unfold Store.session? at fetches
  split at fetches
  · cases fetches
    exact silent_obtain ..
  · cases fetches

/-- Nothing is raised or left open when a procedure is loaded. -/
theorem silent_load? {loaded : Store φ σ} {count : Nat} {loading : Transcript}
    (loads : store.load? name = some (count, loaded, loading)) :
    loading.errors = [] ∧ loading.openAnswers = 0 := by
  have asserted : ∀ (id : SessionId) (formulas : List Expr),
      Transcript.errors (formulas.map fun formula => ⟨id, .asserted formula⟩) = [] ∧
        Transcript.openAnswers (formulas.map fun formula => ⟨id, .asserted formula⟩) = 0 := by
    intro id formulas
    constructor
    · simp [Transcript.errors, Action.error?, List.filterMap_map]
    · simp [Transcript.openAnswers, Event.staysOpen]
  simp only [Store.load?, Option.bind_eq_bind, Option.bind_eq_some_iff, Option.pure_def,
    Option.some.injEq, Prod.exists, Prod.mk.injEq] at loads
  obtain ⟨ssa, -, session, fetched, opening, fetches, -, -, rfl⟩ := loads
  obtain ⟨errors, openAnswers⟩ := silent_session? fetches
  rw [Transcript.errors_append, Transcript.openAnswers_append, errors, openAnswers,
    (asserted _ _).1, (asserted _ _).2]
  exact ⟨rfl, rfl⟩

/-- What sessions raise or leave open in an analysis, they do in its exploration. -/
theorem transcript_analyze (form : store.get? name = some ssa) (domain : Domain δ ι V)
    (symbols : SymbolSet) :
    ∃ loading : Transcript, loading.errors = [] ∧ loading.openAnswers = 0 ∧
      (analyze store name domain symbols).transcript = loading ++
        (Run.explore domain.template (⟨domain.search, domain.value, ssa.pendingFormulas.foldl
          (fun session formula => Solver.assert formula session) (store.sessionOf name), 0, 0, []⟩ :
          Run ι V σ)).2.2.transcript := by
  obtain ⟨count, loaded, loading, loads, filled⟩ := Store.load?_of_form form
  obtain ⟨after, drives, -⟩ := Store.drive?_of_held filled.get?_eq filled.held?_eq domain
    fun template run =>
      (((run.explore template).1, (run.explore template).2.1), (run.explore template).2.2)
  obtain ⟨errors, openAnswers⟩ := silent_load? loads
  refine ⟨loading, errors, openAnswers, ?_⟩
  simp only [analyze, loads, drives, Option.bind_eq_bind, Option.bind_some, Option.pure_def]

/-- The projection of a value asks no session. -/
theorem raised_conclude {δ ι V σ : Type} [TemplateDomain δ ι V] [CandidDomain δ ι V] (name : String)
    (start : ι) (symbols : SymbolSet) (status : Status) (template : δ) (run : Run ι V σ) :
    raised (conclude name start symbols status template run) = none :=
  raised_bind (CandidDomain.raised_project template run.value symbols) fun _ => rfl

/-- An analysis fails with the first error that a session raised. -/
theorem raised_analyze [CandidDomain δ ι V] (form : store.get? name = some ssa)
    (domain : Domain δ ι V) (symbols : SymbolSet) (error : SolverError) :
    (analyze store name domain symbols).outcome = .error (.failed (.solver error)) ↔
      (analyze store name domain symbols).transcript.errors.head? = some error := by
  obtain ⟨outcome, template, last, explored, ended, -⟩ := analyze_of_form form domain symbols
  obtain ⟨loading, quiet, -, transcript⟩ := transcript_analyze form domain symbols
  have reports := Run.reports_explore domain.template (⟨domain.search, domain.value,
    ssa.pendingFormulas.foldl (fun session formula => Solver.assert formula session)
      (store.sessionOf name), 0, 0, []⟩ : Run ι V σ)
  rw [explored] at reports transcript
  obtain ⟨asked, told, first⟩ := reports.exists_asked
  dsimp only at transcript told first
  rw [ended, transcript, told, Transcript.errors_append, quiet, List.nil_append, List.nil_append,
    first]
  cases outcome with
  | error failure =>
    rw [raised_eq_some_iff]
    simp [Except.bind, Except.mapError]
  | ok status =>
    have projected := raised_conclude name domain.search symbols status template last
    change (conclude name domain.search symbols status template last).mapError _ = _ ↔ _
    cases concluded : conclude name domain.search symbols status template last with
    | ok result => simp [Except.mapError]
    | error failure =>
      rw [concluded] at projected
      cases failure with
      | solver raised => cases projected
      | missingRow row => simp [Except.mapError]

end Analyze

end TemplateAnalysis
