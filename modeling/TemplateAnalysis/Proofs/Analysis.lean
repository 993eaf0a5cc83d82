import TemplateAnalysis.Proofs.Ssa.OverApproximation
import TemplateAnalysis.Proofs.Store.Sessions
import TemplateAnalysis.Proofs.Template.Observations

/-! # What an analysis with a result has done

An analysis with a result has loaded the formulas of the procedure into its session and iterated the
domain to a fixpoint, once for each template tried, each time from the value that says nothing. The
value of the result is the last fixpoint. It is reported as converged only if no query of the
iteration stayed open and the domain asks for no larger template.
-/

namespace TemplateAnalysis

section Explore

variable {δ ι V σ : Type} [TemplateDomain δ ι V] [FiniteDomain δ ι V] [Solver σ]

/-- A run about to iterate a template, from the value that says nothing. -/
def Run.restarted (template : δ) (run : Run ι V σ) : Run ι V σ :=
  { run with
    search := TemplateDomain.restart V template run.search
    value := TemplateDomain.newValue ι template }

/-- What every refinement keeps and what each way to end gives hold at the end of an exploration, with
or without a failure. -/
theorem Run.explore_ends (Inv : δ → Run ι V σ → Prop)
    (Post : Except Failure Status → δ → Run ι V σ → Prop)
    (fails : ∀ (template : δ) (run last : Run ι V σ) (failure : Failure), Inv template run →
      Run.fixpoint template (run.restarted template) = (.error failure, last) →
        Post (.error failure) template last)
    (converges : ∀ (template : δ) (run last : Run ι V σ), Inv template run →
      Run.fixpoint template (run.restarted template) = (.ok (), last) →
      TemplateDomain.needsRefinement ι template last.value = false →
        Post (.ok .converged) template last)
    (exhausts : ∀ (template : δ) (run last : Run ι V σ), Inv template run →
      Run.fixpoint template (run.restarted template) = (.ok (), last) →
      TemplateDomain.needsRefinement ι template last.value = true →
      TemplateDomain.refine V template last.search = none →
        Post (.ok .exhausted) template last)
    (enlarges : ∀ (template larger : δ) (run last : Run ι V σ) (search : ι), Inv template run →
      Run.fixpoint template (run.restarted template) = (.ok (), last) →
      TemplateDomain.needsRefinement ι template last.value = true →
      TemplateDomain.refine V template last.search = some (larger, search) →
        Inv larger { last with search })
    {template : δ} (run : Run ι V σ) (start : Inv template run) :
    Post (run.explore template).1 (run.explore template).2.1 (run.explore template).2.2 := by
  induction left : TemplateDomain.refinementsLeft ι V template using Nat.strongRecOn
    generalizing template run with
  | ind n ih =>
    rw [explore]
    split
    · next fixed => exact fails template run _ _ start fixed
    · next reached fixed =>
      split
      · next needs =>
        split
        · next most => exact exhausts template run reached start fixed needs most
        · next larger search enlarged =>
          have paid := FiniteDomain.refinementsLeft_refine template larger reached.search search
            enlarged
          rw [left] at paid
          exact ih _ paid _
            (enlarges template larger run reached search start fixed needs enlarged) rfl
      · next satisfied =>
        exact converges template run reached start fixed (by simpa using satisfied)

/-- What every fixpoint gives and every refinement keeps holds at the end of an exploration. -/
theorem Run.explore_induction (Inv Post : δ → Run ι V σ → Prop)
    (iterates : ∀ (template : δ) (run last : Run ι V σ), Inv template run →
      Run.fixpoint template (run.restarted template) = (.ok (), last) → Post template last)
    (enlarges : ∀ (template larger : δ) (run : Run ι V σ) (search : ι), Post template run →
      TemplateDomain.refine V template run.search = some (larger, search) →
        Inv larger { run with search })
    {template larger : δ} {run last : Run ι V σ} {status : Status} (start : Inv template run)
    (answered : run.explore template = (.ok status, larger, last)) :
    Post larger last ∧
      (status = .converged → TemplateDomain.needsRefinement ι larger last.value = false) := by
  have ended := Run.explore_ends Inv (fun outcome larger last => ∀ status, outcome = .ok status →
      Post larger last ∧
        (status = .converged → TemplateDomain.needsRefinement ι larger last.value = false))
    (fun _ _ _ _ _ _ _ => nofun)
    (fun template run last inv fixed satisfied _ _ =>
      ⟨iterates template run last inv fixed, fun _ => satisfied⟩)
    (fun template run last inv fixed _ _ status exhausted =>
      ⟨iterates template run last inv fixed, fun converged => by subst converged; cases exhausted⟩)
    (fun template larger run last search inv fixed _ enlarged =>
      enlarges template larger last search (iterates template run last inv fixed) enlarged) run start
  rw [answered] at ended
  exact ended status rfl

end Explore

namespace Store

variable {φ σ : Type}

/-- A procedure that has been given a form, and no session yet, is kept with the form built from
it. -/
theorem get?_of_ensure {store ensured : Store φ σ} {name : String} {procedure : Procedure}
    {table : SymbolTable} {ssa : Ssa} (absent : store.get? name = none)
    (ensures : store.ensure name procedure table = .ok (ssa, ensured)) :
    Ssa.build name procedure table = .ok ssa ∧ ensured = store.setForm name ssa := by
  simp only [ensure, absent] at ensures
  cases built : Ssa.build name procedure table with
  | error e => simp [built, Except.map] at ensures
  | ok form =>
    rw [built] at ensures
    cases ensures
    exact ⟨rfl, rfl⟩

end Store

section Analyze

variable {δ ι V φ σ : Type} [TemplateDomain δ ι V] [FiniteDomain δ ι V] [Solver σ]
  [SessionSource φ σ]

/-- The run with which the analysis of a procedure without a session starts. -/
def startRun (store : Store φ σ) (ssa : Ssa) (domain : Domain δ ι V) : Run ι V σ where
  search := domain.search
  value := domain.value
  session := ssa.pendingFormulas.foldl (fun session formula => Solver.assert formula session)
    store.nextSession

omit [TemplateDomain δ ι V] [FiniteDomain δ ι V] in
/-- At the start the session holds the formulas of the procedure. -/
theorem holds_startRun (store : Store φ σ) (ssa : Ssa) (domain : Domain δ ι V) :
    Solver.Holds store.nextSession [ssa.pendingFormulas.reverse]
      (startRun store ssa domain).session := by
  have empty : Solver.Holds store.nextSession [[]] store.nextSession := .opened
  have loaded := empty.assertAll ssa.pendingFormulas
  rw [List.append_nil] at loaded
  exact loaded

omit [FiniteDomain δ ι V] [Solver σ] [SessionSource φ σ] in
/-- A conclusion takes over the value and the number of queries, and the status unless some query
stayed open. -/
theorem conclude_cases {name : String} {start : ι} {symbols : SymbolSet} {status : Status}
    {template : δ} {run : Run ι V σ} {result : AnalysisResult V}
    (concluded : conclude name start symbols status template run = .ok result) :
    result.iterations = run.iterations ∧ result.value = run.value ∧
      (result.status = .converged → status = .converged ∧ run.undecided = 0) := by
  unfold conclude at concluded
  cases projected : Domain.project (⟨template, run.search, run.value⟩ : Domain δ ι V) symbols with
  | error failure => simp [bind, Except.bind, projected] at concluded
  | ok invariant =>
    simp only [bind, Except.bind, projected, pure, Except.pure, Except.ok.injEq] at concluded
    subst concluded
    refine ⟨rfl, rfl, fun converged => ?_⟩
    dsimp only at converged
    split at converged
    · next decided => exact ⟨converged, by omega⟩
    · cases converged

/-- A result comes from an exploration with the formulas of the procedure loaded. -/
theorem explore_of_analyze {store : Store φ σ} {name : String} {domain : Domain δ ι V}
    {symbols : SymbolSet} {result : AnalysisResult V} {ssa : Ssa}
    (form : store.get? name = some ssa) (fresh : NameMap.find? store.sessions name = none)
    (answered : (analyze store name domain symbols).outcome = .ok result) :
    ∃ status template run,
      (startRun store ssa domain).explore domain.template = (.ok status, template, run) ∧
      result.value = run.value ∧
      (result.status = .converged → status = .converged ∧ run.undecided = 0) := by
  obtain ⟨outcome, template, run, explored, outcome_eq, -⟩ := analyze_of_form form domain symbols
  have opened : store.sessionOf name = store.nextSession := by
    simp [Store.sessionOf, Store.held?, fresh]
  rw [opened] at explored
  rw [outcome_eq] at answered
  cases outcome with
  | error failure => cases answered
  | ok status =>
    refine ⟨status, template, run, explored, ?_⟩
    cases concluded : conclude name domain.search symbols status template run with
    | error failure => simp [Except.bind, concluded, Except.mapError] at answered
    | ok found =>
      obtain rfl : found = result := by
        simpa [Except.bind, concluded, Except.mapError] using answered
      exact (conclude_cases concluded).2

/-- A result about a well-formed procedure, newly kept and without a session, comes from an
exploration in a session that holds the formulas of the procedure. -/
theorem explore_of_ensured {store ensured : Store φ σ} {name : String} {procedure : Procedure}
    {table : SymbolTable} {ssa : Ssa} (absent : store.get? name = none)
    (unopened : NameMap.find? store.sessions name = none)
    (ensures : store.ensure name procedure table = .ok (ssa, ensured))
    (wellFormed : procedure.WellFormed table) {domain : Domain δ ι V} {symbols : SymbolSet}
    {result : AnalysisResult V}
    (answered : (analyze ensured name domain symbols).outcome = .ok result) :
    ∃ frame : Frame, frame.Proper table ∧ frame.body = procedure.body ∧
      (∀ param ∈ procedure.params, param ∈ frame.objects) ∧
      ssa = frame.complete procedure.params ∧
      ∃ (start last : Run ι V σ) (status : Status) (template : δ),
        Solver.Holds ensured.nextSession frame.loaded start.session ∧
        start.explore domain.template = (.ok status, template, last) ∧
        result.value = last.value ∧
        (result.status = .converged → status = .converged ∧ last.undecided = 0) := by
  obtain ⟨built, rfl⟩ := Store.get?_of_ensure absent ensures
  obtain ⟨frame, isFrame, rfl⟩ := Ssa.frame_of_build built
  obtain ⟨proper, body, objects⟩ := Frame.proper_of_build isFrame wellFormed
  have params : ∀ param ∈ procedure.params, param ∈ frame.objects := by
    intro param isParam
    rw [objects, wellFormed.mem_objectsOf]
    exact List.mem_append_left _ (List.mem_append_left _ (List.mem_append_left _ isParam))
  have form : (store.setForm name (frame.complete procedure.params)).get? name =
      some (frame.complete procedure.params) := by
    simp [Store.get?, Store.setForm, NameMap.find?_insert]
  obtain ⟨status, template, last, explored, value, ended⟩ :=
    explore_of_analyze form unopened answered
  refine ⟨frame, proper, body, params, rfl, _, last, status, template, ?_, explored, value, ended⟩
  rw [Frame.loaded, ← proper.formulas_complete procedure.params, ← Frame.pendingFormulas_complete]
  exact holds_startRun _ _ _

end Analyze

end TemplateAnalysis
