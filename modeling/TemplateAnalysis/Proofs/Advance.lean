import TemplateAnalysis.Proofs.Analysis

/-! # How far an exploration goes

Whatever the sessions answer, and whether or not an exploration ends with a failure, the domain goes
from one state to the next by the calls that template domains offer, and each query is posed in a
scope of its own. So the queries can be counted in the transcript, also where there is no result. If
every round that changes something lowers a potential, the potential bounds the queries of one
fixpoint, and the refinements that are left bound the number of fixpoints.
-/

namespace TemplateAnalysis

/-- The event opens a scope. -/
def Event.opensScope (event : Event) : Bool :=
  match event.action with
  | .pushed => true
  | _ => false

/-- The number of scopes that were opened. -/
def Transcript.queries (transcript : Transcript) : Nat := transcript.countP Event.opensScope

namespace Transcript

@[simp] theorem queries_nil : queries [] = 0 := rfl

@[simp] theorem queries_append (first second : Transcript) :
    queries (first ++ second) = queries first + queries second := List.countP_append

@[simp] theorem queries_cons (event : Event) (rest : Transcript) :
    queries (event :: rest) = queries rest + event.opensScope.toNat := by
  cases opens : event.opensScope <;> simp [queries, opens]

/-- To obtain a session takes no query. -/
@[simp] theorem queries_obtain {φ σ : Type} [Solver σ] [SessionSource φ σ] (refine : Bool)
    (held : Option σ) (source : φ) : queries (SessionSource.obtain refine held source).2.2 = 0 := by
  cases held <;> rfl

end Transcript

namespace TemplateDomain

variable {δ ι : Type}

/-- What calls make of a template and a search: in any order, with any values and valuations. -/
inductive Leads (V : Type) [TemplateDomain δ ι V] (template : δ) (search : ι) : δ → ι → Prop
  | start : Leads V template search template search
  | restart {later : δ} {next : ι} (leads : Leads V template search later next) :
      Leads V template search later (TemplateDomain.restart V later next)
  | beginRound {later : δ} {next : ι} (leads : Leads V template search later next) :
      Leads V template search later (TemplateDomain.beginRound δ V next)
  | refute {later : δ} {next : ι} (leads : Leads V template search later next) (m : Valuation)
      (row : Nat) (value : V) :
      Leads V template search later (TemplateDomain.refute later m row next value).search
  | confirm {later : δ} {next : ι} (leads : Leads V template search later next) (value : V) :
      Leads V template search later (TemplateDomain.confirm later next value).search
  | giveUp {later : δ} {next : ι} (leads : Leads V template search later next) (value : V) :
      Leads V template search later (TemplateDomain.giveUp later next value).search
  | endRound {later : δ} {next : ι} (leads : Leads V template search later next) :
      Leads V template search later (TemplateDomain.endRound δ V next)
  | refine {later larger : δ} {next last : ι} (leads : Leads V template search later next)
      (enlarged : TemplateDomain.refine V later next = some (larger, last)) :
      Leads V template search larger last

theorem Leads.trans {V : Type} [TemplateDomain δ ι V] {template later last : δ}
    {search next final : ι} (first : Leads V template search later next)
    (second : Leads V later next last final) : Leads V template search last final := by
  induction second with
  | start => exact first
  | restart _ ih => exact ih.restart
  | beginRound _ ih => exact ih.beginRound
  | refute _ m row value ih => exact ih.refute m row value
  | confirm _ value ih => exact ih.confirm value
  | giveUp _ value ih => exact ih.giveUp value
  | endRound _ ih => exact ih.endRound
  | refine _ enlarged ih => exact ih.refine enlarged

end TemplateDomain

/-- A template domain that opens no scope in the sessions of its own. -/
class FlatDomain (δ ι V : Type) [TemplateDomain δ ι V] : Prop where
  queries_refute : ∀ (d : δ) (m : Valuation) (row : Nat) (s : ι) (v : V),
    (TemplateDomain.refute d m row s v).transcript.queries = 0
  queries_confirm : ∀ (d : δ) (s : ι) (v : V),
    (TemplateDomain.confirm d s v).transcript.queries = 0
  queries_giveUp : ∀ (d : δ) (s : ι) (v : V),
    (TemplateDomain.giveUp d s v).transcript.queries = 0

namespace Run

variable {δ ι V σ : Type} [TemplateDomain δ ι V]

/-- A run goes on, with so many queries, to another template and another run. -/
structure Advances (queries : Nat) (template : δ) (run : Run ι V σ) (later : δ)
    (next : Run ι V σ) : Prop where
  leads : TemplateDomain.Leads V template run.search later next.search
  iterations : next.iterations = run.iterations + queries
  transcript : next.transcript.queries = run.transcript.queries + queries

section Steps

variable {template later last : δ} {run next final : Run ι V σ} {m n : Nat}

theorem Advances.trans (first : Advances m template run later next)
    (second : Advances n later next last final) : Advances (m + n) template run last final where
  leads := first.leads.trans second.leads
  iterations := by rw [second.iterations, first.iterations, Nat.add_assoc]
  transcript := by rw [second.transcript, first.transcript, Nat.add_assoc]

theorem Advances.refl (template : δ) (run : Run ι V σ) : Advances 0 template run template run :=
  ⟨.start, rfl, rfl⟩

theorem advances_adopt {reply : Reply ι V}
    (leads : TemplateDomain.Leads V template run.search template reply.search)
    (flat : reply.transcript.queries = 0) :
    Advances 0 template run template (run.adopt reply).2 :=
  ⟨leads, rfl, by simp [adopt, flat]⟩

variable [Solver σ]

theorem advances_assert (template : δ) (run : Run ι V σ) (formula : Expr) :
    Advances 0 template run template (run.assert formula) :=
  ⟨.start, rfl, by simp [assert, record, Event.opensScope]⟩

theorem advances_solve (template : δ) (run : Run ι V σ) :
    Advances 0 template run template run.solve.2 :=
  ⟨.start, rfl, by simp [solve, record, Event.opensScope]⟩

theorem advances_pop (template : δ) (run : Run ι V σ) :
    Advances 0 template run template run.pop.2 :=
  ⟨.start, rfl, by simp [pop, record, Event.opensScope]⟩

/-- A query is counted when its scope is opened. -/
theorem advances_push (template : δ) (run : Run ι V σ) :
    Advances 1 template run template
      ({ run with iterations := run.iterations + 1 } : Run ι V σ).push :=
  ⟨.start, rfl, by simp [push, record, Event.opensScope]⟩

theorem advances_pose (template : δ) (run : Run ι V σ) :
    Advances 0 template run template (run.pose template).2 := by
  have asserts : ∀ (rows : List (Nat × Symbol × Expr)) (run : Run ι V σ),
      Advances 0 template run template
        (rows.foldl (fun run row => run.assert (Expr.equal (.var row.2.1) row.2.2)) run) := by
    intro rows
    induction rows with
    | nil => exact .refl template
    | cons row rest ih => exact fun run => (advances_assert template run _).trans (ih _)
  unfold pose
  split
  · exact .refl template run
  · dsimp only
    split
    · exact advances_assert template run _
    · exact (advances_assert template run _).trans (asserts _ _)

end Steps

variable [Solver σ] [FlatDomain δ ι V]

theorem advances_refuteAll (template : δ) (rows : List (Nat × Symbol × Expr)) (run : Run ι V σ) :
    Advances 0 template run template (run.refuteAll template rows).2 := by
  induction rows generalizing run with
  | nil => exact .refl template run
  | cons first rest ih =>
    obtain ⟨row, literal, violation⟩ := first
    have told : Advances 0 template run template (run.adopt (TemplateDomain.refute template
        (Solver.valuation run.session) row run.search run.value)).2 :=
      advances_adopt (.refute .start _ _ _) (FlatDomain.queries_refute ..)
    unfold refuteAll
    split
    · split
      · next adopted => exact (Prod.mk.inj adopted).2 ▸ told
      · next adopted =>
        rw [adopted] at told
        exact told.trans (ih _)
    · exact ih run

theorem advances_settle (template : δ) (rows : List (Nat × Symbol × Expr)) (run : Run ι V σ) :
    Advances 0 template run template (run.settle template rows).2 := by
  have confirmed : ∀ run : Run ι V σ, Advances 0 template run template
      (run.adopt (TemplateDomain.confirm template run.search run.value)).2 := fun run =>
    advances_adopt (.confirm .start _) (FlatDomain.queries_confirm ..)
  have gaveUp : ∀ run : Run ι V σ, Advances 0 template run template
      (({ run with undecided := run.undecided + 1 } : Run ι V σ).adopt
        (TemplateDomain.giveUp template run.search run.value)).2 := fun run =>
    ⟨.giveUp .start _, rfl, by simp [adopt, FlatDomain.queries_giveUp]⟩
  have asked := (advances_assert template run (someViolated rows)).trans (advances_solve template _)
  unfold settle
  split
  · exact confirmed run
  · split
    · next solved => exact (Prod.mk.inj solved).2 ▸ asked
    · next solved =>
      rw [← (Prod.mk.inj solved).2]
      exact asked.trans (advances_refuteAll template rows _)
    · next solved =>
      rw [← (Prod.mk.inj solved).2]
      exact asked.trans (confirmed _)
    · next solved =>
      rw [← (Prod.mk.inj solved).2]
      exact asked.trans (gaveUp _)

theorem advances_query (template : δ) (run : Run ι V σ) :
    Advances 0 template run template (run.query template).2 := by
  have posed := advances_pose template run
  unfold query
  generalize run.pose template = asking at posed ⊢
  obtain ⟨outcome, asking⟩ := asking
  cases outcome with
  | error failure => exact posed
  | ok rows => exact posed.trans (advances_settle template rows asking)

/-- One query, however it ends. -/
theorem advances_iterate (template : δ) (run : Run ι V σ) :
    Advances 1 template run template (run.iterate template).2 := by
  have queried := (advances_push template run).trans (advances_query template _)
  unfold iterate
  split
  · next asked => exact (Prod.mk.inj asked).2 ▸ queried
  · next asked =>
    rw [asked] at queried
    exact queried.trans (advances_pop template _)
  · next asked =>
    rw [asked] at queried
    have closed := queried.trans (advances_pop template _)
    split
    · next popped => exact (Prod.mk.inj popped).2 ▸ closed
    · next popped => exact (Prod.mk.inj popped).2 ▸ closed

/-- A round poses one query, however it ends. -/
theorem advances_round (template : δ) (run : Run ι V σ) :
    Advances 1 template run template (run.round template).2 := by
  have begun : Advances 0 template run template (run.beginRound δ) :=
    ⟨.beginRound .start, rfl, rfl⟩
  have ended : ∀ run : Run ι V σ, Advances 0 template run template (run.endRound δ) := fun _ =>
    ⟨.endRound .start, rfl, rfl⟩
  have iterated := begun.trans (advances_iterate template _)
  unfold round
  split
  · next failed => exact (Prod.mk.inj failed).2 ▸ iterated
  · next answered =>
    rw [answered] at iterated
    exact iterated.trans (ended _)

variable [FiniteDomain δ ι V]

/-- If there is work only where a potential is left, and every round that changes something lowers
it, the potential bounds the queries of an iteration. -/
theorem advances_fixpoint (template : δ) (potential : Run ι V σ → Nat)
    (positive : ∀ run : Run ι V σ, TemplateDomain.hasWork δ V run.search = true → 0 < potential run)
    (lowers : ∀ run next : Run ι V σ, run.round template = (.ok true, next) →
      TemplateDomain.hasWork δ V run.search = true → potential next < potential run)
    (run : Run ι V σ) : ∃ queries ≤ potential run,
      Advances queries template run template (run.fixpoint template).2 := by
  induction left : potential run using Nat.strongRecOn generalizing run with
  | ind n ih =>
    subst left
    rw [fixpoint]
    split
    · next working =>
      have round := advances_round template run
      have once := positive run working
      split
      · next answered => exact ⟨1, once, (Prod.mk.inj answered).2 ▸ round⟩
      · next answered => exact ⟨1, once, (Prod.mk.inj answered).2 ▸ round⟩
      · next next answered =>
        have lower := lowers run next answered working
        obtain ⟨queries, bounded, advances⟩ := ih _ lower next rfl
        rw [answered] at round
        exact ⟨1 + queries, by omega, round.trans advances⟩
    · exact ⟨0, Nat.zero_le _, .refl template run⟩

omit [FlatDomain δ ι V] in
/-- If the queries of every iteration are bounded, those of an exploration are bounded by as many
iterations as there are refinements left, and one. -/
theorem advances_explore (Small : δ → Prop) (most : Nat)
    (iterates : ∀ (template : δ) (run : Run ι V σ), Small template → ∃ queries ≤ most,
      Advances queries template (run.restarted template) template
        ((run.restarted template).fixpoint template).2)
    (enlarges : ∀ (template larger : δ) (search next : ι), Small template →
      TemplateDomain.refine V template search = some (larger, next) → Small larger)
    {template : δ} (small : Small template) (run : Run ι V σ) :
    ∃ queries ≤ (TemplateDomain.refinementsLeft ι V template + 1) * most,
      Advances queries template run (run.explore template).2.1 (run.explore template).2.2 := by
  induction left : TemplateDomain.refinementsLeft ι V template using Nat.strongRecOn
    generalizing template run with
  | ind n ih =>
    have restarts : Advances 0 template run template (run.restarted template) :=
      ⟨.restart .start, rfl, rfl⟩
    obtain ⟨queries, bounded, iterated⟩ := iterates template run small
    have fixed := restarts.trans iterated
    rw [Nat.zero_add] at fixed
    have within : queries ≤ (n + 1) * most := by
      rw [Nat.succ_mul]
      omega
    rw [explore]
    split
    · next answered => exact ⟨queries, within, (Prod.mk.inj answered).2 ▸ fixed⟩
    · next reached answered =>
      have fixed : Advances queries template run template reached :=
        (Prod.mk.inj answered).2 ▸ fixed
      split
      · split
        · exact ⟨queries, within, fixed⟩
        · next larger search enlarged =>
          have refined : Advances 0 template reached larger { reached with search } :=
            ⟨.refine .start enlarged, rfl, rfl⟩
          have paid := FiniteDomain.refinementsLeft_refine template larger reached.search search
            enlarged
          rw [left] at paid
          obtain ⟨more, bounded', explored⟩ := ih _ paid
            (enlarges template larger reached.search search small enlarged) { reached with search }
            rfl
          refine ⟨queries + more, ?_, (fixed.trans refined).trans explored⟩
          calc queries + more ≤ most + n * most :=
                Nat.add_le_add bounded (Nat.le_trans bounded' (Nat.mul_le_mul_right most paid))
            _ = (n + 1) * most := by rw [Nat.succ_mul, Nat.add_comm]
      · exact ⟨queries, within, fixed⟩

end Run

section Analyze

variable {δ ι V φ σ : Type} [TemplateDomain δ ι V]

/-- An analysis of a domain took at most so many queries: they are those in its transcript, a result
gives their number, and the domain was changed by calls only. -/
structure Analysis.Within (bound : Nat) (domain : Domain δ ι V) (analysis : Analysis δ ι V φ σ) :
    Prop where
  queries : analysis.transcript.queries ≤ bound
  iterations : ∀ result, analysis.outcome = .ok result →
    result.iterations = analysis.transcript.queries
  leads : TemplateDomain.Leads V domain.template domain.search analysis.domain.template
    analysis.domain.search

variable [Solver σ] [SessionSource φ σ]

omit [TemplateDomain δ ι V] in
theorem queries_session? {store fetched : Store φ σ} {name : String} {session : σ}
    {opening : Transcript} (fetches : store.session? name = some (session, fetched, opening)) :
    opening.queries = 0 := by
  unfold Store.session? at fetches
  split at fetches
  · cases fetches
    exact Transcript.queries_obtain _ _ _
  · cases fetches

omit [TemplateDomain δ ι V] in
/-- Nothing is asked when a procedure is loaded. -/
theorem queries_load? {store loaded : Store φ σ} {name : String} {count : Nat}
    {loading : Transcript} (loads : store.load? name = some (count, loaded, loading)) :
    loading.queries = 0 := by
  simp only [Store.load?, Option.bind_eq_bind, Option.bind_eq_some_iff, Option.pure_def,
    Option.some.injEq, Prod.exists, Prod.mk.injEq] at loads
  obtain ⟨ssa, -, session, fetched, opening, fetches, -, -, rfl⟩ := loads
  have asserted : ∀ (id : SessionId) (formulas : List Expr),
      Transcript.queries (formulas.map fun formula => ⟨id, .asserted formula⟩) = 0 := by
    intro id formulas
    induction formulas with
    | nil => rfl
    | cons formula rest ih => simp [ih, Event.opensScope]
  rw [Transcript.queries_append, queries_session? fetches, asserted]

/-- The queries of an analysis are those of its exploration. -/
theorem within_analyze [FiniteDomain δ ι V] {bound : Nat} {domain : Domain δ ι V}
    (explores : ∀ run : Run ι V σ, ∃ queries ≤ bound, Run.Advances queries domain.template run
      (run.explore domain.template).2.1 (run.explore domain.template).2.2)
    (store : Store φ σ) (name : String) (symbols : SymbolSet) :
    (analyze store name domain symbols).Within bound domain := by
  have absent : ({ outcome := .error (.unknownFunction name), domain, store } :
      Analysis δ ι V φ σ).Within bound domain :=
    ⟨Nat.zero_le _, nofun, .start⟩
  unfold analyze
  cases loads : store.load? name with
  | none => exact absent
  | some entry =>
    obtain ⟨count, loaded, loading⟩ := entry
    cases fetches : loaded.session? name with
    | none =>
      simp only [Store.drive?, fetches, Option.bind_eq_bind, Option.bind_some, Option.bind_none]
      exact absent
    | some entry =>
      obtain ⟨session, fetched, opening⟩ := entry
      simp only [Store.drive?, fetches, Option.bind_eq_bind, Option.bind_some, Option.pure_def]
      obtain ⟨queries, bounded, leads, iterations, transcript⟩ := explores
        { search := domain.search, value := domain.value, session, transcript := opening }
      generalize Run.explore domain.template (⟨domain.search, domain.value, session, 0, 0,
        opening⟩ : Run ι V σ) = explored at leads iterations transcript ⊢
      obtain ⟨outcome, larger, last⟩ := explored
      dsimp only at leads iterations transcript ⊢
      have counted : Transcript.queries (loading ++ last.transcript) = queries := by
        rw [Transcript.queries_append, transcript, queries_load? loads, queries_session? fetches,
          Nat.zero_add, Nat.zero_add]
      refine ⟨counted ▸ bounded, fun result answered => ?_, leads⟩
      rw [counted]
      cases outcome with
      | error failure => cases answered
      | ok status =>
        cases concluded : conclude name domain.search symbols status larger last with
        | error failure =>
          change (conclude name domain.search symbols status larger last).mapError _ = _ at answered
          rw [concluded] at answered
          cases answered
        | ok found =>
          change (conclude name domain.search symbols status larger last).mapError _ = _ at answered
          rw [concluded] at answered
          cases answered
          rw [(conclude_cases concluded).1, iterations, Nat.zero_add]

end Analyze

end TemplateAnalysis
