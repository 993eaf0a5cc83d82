import TemplateAnalysis.Analysis

/-! # What a store keeps of a procedure

A store keeps a form and a session of a procedure. Fetching the session opens one if there is none;
loading asserts what is pending there and marks all nodes; an analysis loads and then leaves the
session as its exploration does. Each of them finds a procedure that has a form, and changes nothing
about another procedure.
-/

namespace TemplateAnalysis

namespace Store

variable {φ σ : Type} {store next : Store φ σ} {name : String} {ssa : Ssa}

/-- The session of a procedure, if it has one. -/
def held? (store : Store φ σ) (name : String) : Option σ := NameMap.find? store.sessions name

/-- The stores agree on all procedures but one. -/
structure SameElsewhere (name : String) (store next : Store φ σ) : Prop where
  forms : ∀ other, other ≠ name → next.get? other = store.get? other
  sessions : ∀ other, other ≠ name → next.held? other = store.held? other

/-- The next store has the given form and session for one procedure, and all else as before. -/
structure Becomes (name : String) (ssa : Ssa) (session : σ) (store next : Store φ σ) : Prop
    extends SameElsewhere name store next where
  get?_eq : next.get? name = some ssa
  held?_eq : next.held? name = some session

theorem SameElsewhere.refl (name : String) (store : Store φ σ) : SameElsewhere name store store :=
  ⟨fun _ _ => rfl, fun _ _ => rfl⟩

theorem get?_setForm (store : Store φ σ) (name other : String) (ssa : Ssa) :
    (store.setForm name ssa).get? other = if other = name then some ssa else store.get? other :=
  NameMap.find?_insert ..

theorem get?_setForm_self (store : Store φ σ) (name : String) (ssa : Ssa) :
    (store.setForm name ssa).get? name = some ssa := by
  rw [get?_setForm, if_pos rfl]

theorem held?_setSession (store : Store φ σ) (name other : String) (session : σ) :
    (store.setSession name session).held? other =
      if other = name then some session else store.held? other :=
  NameMap.find?_insert ..

theorem SameElsewhere.setForm (same : SameElsewhere name store next) (ssa : Ssa) :
    SameElsewhere name store (next.setForm name ssa) := by
  refine ⟨fun other apart => ?_, same.sessions⟩
  rw [get?_setForm, if_neg apart, same.forms other apart]

theorem SameElsewhere.becomes (same : SameElsewhere name store next)
    (form : next.get? name = some ssa) (session : σ) :
    Becomes name ssa session store (next.setSession name session) := by
  refine ⟨⟨same.forms, fun other apart => ?_⟩, form, ?_⟩
  · rw [held?_setSession, if_neg apart, same.sessions other apart]
  · rw [held?_setSession, if_pos rfl]

section Sessions

variable [Solver σ] [SessionSource φ σ]

/-- The session that a store opens next. -/
def nextSession (store : Store φ σ) : σ :=
  (SessionSource.allocate store.refine store.source).1

/-- The session of a procedure, or the one that is opened for it. -/
def sessionOf (store : Store φ σ) (name : String) : σ :=
  (store.held? name).getD store.nextSession

theorem session?_of_form (form : store.get? name = some ssa) :
    ∃ fetched opening, store.session? name = some (store.sessionOf name, fetched, opening) ∧
      Becomes name ssa (store.sessionOf name) store fetched := by
  have known : store.contains name = true := by rw [contains, form]; rfl
  have same : (SessionSource.obtain store.refine (NameMap.find? store.sessions name)
      store.source).1 = store.sessionOf name := by
    unfold sessionOf held? SessionSource.obtain
    split <;> simp_all [nextSession]
  rw [session?, if_pos known]
  generalize SessionSource.obtain store.refine _ store.source = obtained at same ⊢
  obtain ⟨session, source, opening⟩ := obtained
  obtain rfl : session = store.sessionOf name := same
  have kept : SameElsewhere name store { store with source } := ⟨fun _ _ => rfl, fun _ _ => rfl⟩
  exact ⟨_, _, rfl, kept.becomes form _⟩

/-- Loading asserts what is pending, and all nodes count as loaded. -/
theorem load?_of_form (form : store.get? name = some ssa) :
    ∃ count loaded transcript, store.load? name = some (count, loaded, transcript) ∧
      Becomes name (ssa.setLoaded true) (ssa.pendingFormulas.foldl
        (fun session formula => Solver.assert formula session) (store.sessionOf name))
        store loaded := by
  obtain ⟨fetched, opening, fetches, becomes⟩ := session?_of_form form
  have marked : SameElsewhere name store (fetched.setForm name (ssa.setLoaded true)) :=
    becomes.toSameElsewhere.setForm _
  simp only [load?, form, fetches, Option.bind_eq_bind, Option.bind_some, Option.pure_def]
  exact ⟨_, _, _, rfl, marked.becomes (get?_setForm_self ..) _⟩

end Sessions

end Store

section Analyze

variable {δ ι V φ σ : Type} [TemplateDomain δ ι V] [FiniteDomain δ ι V] [Solver σ]
  [SessionSource φ σ] {store : Store φ σ} {name : String} {ssa : Ssa}

omit [TemplateDomain δ ι V] [FiniteDomain δ ι V] in
/-- A procedure that has a session is driven against it. -/
theorem Store.drive?_of_held {α : Type} {session : σ} (form : store.get? name = some ssa)
    (held : store.held? name = some session) (domain : Domain δ ι V)
    (drive : δ → Run ι V σ → α × Run ι V σ) :
    ∃ after, store.drive? name domain drive =
      some ((drive domain.template ⟨domain.search, domain.value, session, 0, 0, []⟩).1,
        (drive domain.template ⟨domain.search, domain.value, session, 0, 0, []⟩).2, after) ∧
      Becomes name ssa
        (drive domain.template ⟨domain.search, domain.value, session, 0, 0, []⟩).2.session
        store after := by
  have known : store.contains name = true := by rw [contains, form]; rfl
  have kept : NameMap.find? store.sessions name = some session := held
  simp only [drive?, session?, known, kept, SessionSource.obtain, if_true, Option.bind_eq_bind,
    Option.bind_some, Option.pure_def]
  have again : Becomes name ssa session store (store.setSession name session) :=
    (SameElsewhere.refl name store).becomes form session
  exact ⟨_, rfl, again.toSameElsewhere.becomes form _⟩

/-- The analysis of a procedure loads it and explores, starting with what is pending in the session
of the procedure. -/
theorem analyze_of_form (form : store.get? name = some ssa) (domain : Domain δ ι V)
    (symbols : SymbolSet) :
    ∃ outcome template last,
      Run.explore domain.template (⟨domain.search, domain.value, ssa.pendingFormulas.foldl
        (fun session formula => Solver.assert formula session) (store.sessionOf name), 0, 0, []⟩ :
        Run ι V σ) = (outcome, template, last) ∧
      (analyze store name domain symbols).outcome = Except.mapError AnalysisError.failed
        (outcome.bind fun status => conclude name domain.search symbols status template last) ∧
      Store.Becomes name (ssa.setLoaded true) last.session store
        (analyze store name domain symbols).store := by
  obtain ⟨count, loaded, loading, loads, filled⟩ := Store.load?_of_form form
  obtain ⟨after, drives, driven⟩ := Store.drive?_of_held filled.get?_eq filled.held?_eq domain
    fun template run =>
      (((run.explore template).1, (run.explore template).2.1), (run.explore template).2.2)
  refine ⟨_, _, _, rfl, ?_, ?_⟩
  · simp only [analyze, loads, drives, Option.bind_eq_bind, Option.bind_some, Option.pure_def]
    rfl
  · simp only [analyze, loads, drives, Option.bind_eq_bind, Option.bind_some, Option.pure_def]
    refine ⟨⟨fun other apart => ?_, fun other apart => ?_⟩, driven.get?_eq, driven.held?_eq⟩
    · rw [driven.forms other apart, filled.forms other apart]
    · rw [driven.sessions other apart, filled.sessions other apart]

/-- Without a form there is nothing to analyze. -/
theorem analyze_of_absent (absent : store.get? name = none) (domain : Domain δ ι V)
    (symbols : SymbolSet) : (analyze store name domain symbols).store = store := by
  simp [analyze, Store.load?, absent]

end Analyze

end TemplateAnalysis
