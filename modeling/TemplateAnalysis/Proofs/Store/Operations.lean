import TemplateAnalysis.Proofs.Analysis
import TemplateAnalysis.Proofs.Solver.Scopes
import TemplateAnalysis.Proofs.Unwinding.Series

/-! # What clients do with a store

A client builds forms, consults sessions, loads, unwinds, turns assertions into constraints and
analyzes, in any order and for any procedures. Each operation is about one procedure, and what the
store keeps of another one stays as it is. A history lists the operations performed on a store that
starts empty, each with the store it was performed on.
-/

namespace TemplateAnalysis

/-- What a client does with a store. -/
inductive Operation where
  /-- build the form of a procedure, unless there is one under its name -/
  | ensure (name : String) (procedure : Procedure) (table : SymbolTable)
  /-- fetch the session of a procedure, and make calls to it that assert nothing -/
  | consult (name : String) (questions : List Question)
  /-- hand the formulas of a procedure to its session -/
  | load (name : String)
  /-- call for unwindings of the form of a procedure, in a series of its own -/
  | unwind (name : String) (heads : List Nat)
  /-- turn the assertions of a procedure into constraints -/
  | constrain (name : String)
  /-- analyze a procedure -/
  | analyze (name : String)

namespace Operation

/-- The procedure that an operation is about. -/
def target : Operation → String
  | ensure name _ _ => name
  | consult name _ => name
  | load name => name
  | unwind name _ => name
  | constrain name => name
  | analyze name => name

/-- The operation hands out all formulas of the procedure that it is about. -/
def isLoading : Operation → Bool
  | load _ => true
  | analyze _ => true
  | _ => false

end Operation

namespace Store

variable {φ σ : Type} [Solver σ] [SessionSource φ σ]

/-- The store after an operation. The client leaves no scope of a session open, and an analysis is
one that is returned from, with any domain and any outcome. -/
inductive Performs (store : Store φ σ) : Operation → Store φ σ → Prop
  | ensured {name : String} {procedure : Procedure} {table : SymbolTable} {ssa : Ssa}
      {next : Store φ σ} (ensures : store.ensure name procedure table = .ok (ssa, next)) :
      Performs store (.ensure name procedure table) next
  | refused {name : String} {procedure : Procedure} {table : SymbolTable} {error : BuildError}
      (refusal : store.ensure name procedure table = .error error) :
      Performs store (.ensure name procedure table) store
  | consulted {name : String} {questions : List Question} {session : σ} {next : Store φ σ}
      {opening : Transcript} (fetches : store.session? name = some (session, next, opening))
      (closed : questions.foldl Question.depth 0 = 0) :
      Performs store (.consult name questions)
        (next.setSession name (questions.foldl Question.ask session))
  | notConsulted {name : String} {questions : List Question}
      (refusal : store.session? name = none) : Performs store (.consult name questions) store
  | loaded {name : String} {count : Nat} {next : Store φ σ} {transcript : Transcript}
      (loads : store.load? name = some (count, next, transcript)) :
      Performs store (.load name) next
  | notLoaded {name : String} (refusal : store.load? name = none) :
      Performs store (.load name) store
  | unwound {name : String} {heads : List Nat} {ssa unwound : Ssa} {u : Unwinder}
      (form : store.get? name = some ssa) (run : Unwinds ssa heads u unwound) :
      Performs store (.unwind name heads) (store.setForm name unwound)
  | constrained {name : String} {ssa : Ssa} (form : store.get? name = some ssa) :
      Performs store (.constrain name) (store.setForm name ssa.constrainAssertions)
  | analyzed {name : String} {δ ι V : Type} [TemplateDomain δ ι V] [FiniteDomain δ ι V]
      (domain : Domain δ ι V) (symbols : SymbolSet)
      (returned : ∀ row, (analyze store name domain symbols).outcome ≠
        .error (.failed (.missingRow row))) :
      Performs store (.analyze name) (analyze store name domain symbols).store

/-- The operations performed on a store that starts without forms and sessions, each with the store
that it was performed on, and the store after them. -/
inductive Reached (source : φ) (refine : Bool) : List (Store φ σ × Operation) → Store φ σ → Prop
  | start : Reached source refine [] { source, refine }
  | performed {history : List (Store φ σ × Operation)} {store next : Store φ σ}
      {operation : Operation} (reached : Reached source refine history store)
      (performs : store.Performs operation next) :
      Reached source refine (history ++ [(store, operation)]) next

variable {store next : Store φ σ} {name : String} {ssa : Ssa}

omit [Solver σ] [SessionSource φ σ] in
/-- A form that is there is kept, and a new one is the one built. -/
theorem ensure_cases {procedure : Procedure} {table : SymbolTable}
    (ensures : store.ensure name procedure table = .ok (ssa, next)) :
    (store.get? name = some ssa ∧ next = store) ∨
      (store.get? name = none ∧ Ssa.build name procedure table = .ok ssa ∧
        next = store.setForm name ssa) := by
  cases form : store.get? name with
  | none => exact .inr ⟨rfl, get?_of_ensure form ensures⟩
  | some kept =>
    simp only [ensure, form, Except.ok.injEq, Prod.mk.injEq] at ensures
    obtain ⟨rfl, rfl⟩ := ensures
    exact .inl ⟨rfl, rfl⟩

theorem session?_eq_none_iff : store.session? name = none ↔ store.get? name = none := by
  cases form : store.get? name with
  | none => simp [session?, contains, form]
  | some ssa =>
    obtain ⟨fetched, opening, fetches, -⟩ := session?_of_form form
    simp [fetches]

theorem load?_eq_none_iff : store.load? name = none ↔ store.get? name = none := by
  cases form : store.get? name with
  | none => simp [load?, form]
  | some ssa =>
    obtain ⟨count, loaded, transcript, loads, -⟩ := load?_of_form form
    simp [loads]

/-- The session that is fetched belongs to a procedure with a form. -/
theorem session?_eq_some {session : σ} {opening : Transcript}
    (fetches : store.session? name = some (session, next, opening)) :
    ∃ ssa, store.get? name = some ssa ∧ session = store.sessionOf name ∧
      Becomes name ssa session store next := by
  obtain ⟨ssa, form⟩ : ∃ ssa, store.get? name = some ssa := by
    rw [← Option.ne_none_iff_exists', Ne, ← session?_eq_none_iff, fetches]
    exact Option.some_ne_none _
  obtain ⟨fetched, opening', fetches', becomes⟩ := session?_of_form form
  rw [fetches'] at fetches
  cases fetches
  exact ⟨ssa, form, rfl, becomes⟩

/-- What is loaded is the form of a procedure. -/
theorem load?_eq_some {count : Nat} {transcript : Transcript}
    (loads : store.load? name = some (count, next, transcript)) :
    ∃ ssa, store.get? name = some ssa ∧
      Becomes name (ssa.setLoaded true) (ssa.pendingFormulas.foldl
        (fun session formula => Solver.assert formula session) (store.sessionOf name))
        store next := by
  obtain ⟨ssa, form⟩ : ∃ ssa, store.get? name = some ssa := by
    rw [← Option.ne_none_iff_exists', Ne, ← load?_eq_none_iff, loads]
    exact Option.some_ne_none _
  obtain ⟨count', loaded, transcript', loads', becomes⟩ := load?_of_form form
  rw [loads'] at loads
  cases loads
  exact ⟨ssa, form, becomes⟩

/-- An operation changes nothing about other procedures than its own. -/
theorem Performs.sameElsewhere {operation : Operation} (performs : store.Performs operation next) :
    SameElsewhere operation.target store next := by
  have unchanged := SameElsewhere.refl operation.target store
  cases performs with
  | ensured ensures =>
    rcases ensure_cases ensures with ⟨-, rfl⟩ | ⟨-, -, rfl⟩
    · exact unchanged
    · exact unchanged.setForm _
  | refused refusal => exact unchanged
  | consulted fetches closed =>
    obtain ⟨ssa, form, -, becomes⟩ := session?_eq_some fetches
    exact (becomes.toSameElsewhere.becomes becomes.get?_eq _).toSameElsewhere
  | notConsulted refusal => exact unchanged
  | loaded loads =>
    obtain ⟨ssa, form, becomes⟩ := load?_eq_some loads
    exact becomes.toSameElsewhere
  | notLoaded refusal => exact unchanged
  | unwound form run => exact unchanged.setForm _
  | constrained form => exact unchanged.setForm _
  | @analyzed name _ _ _ _ _ domain symbols returned =>
    cases form : store.get? name with
    | none =>
      rw [analyze_of_absent form]
      exact unchanged
    | some ssa =>
      obtain ⟨outcome, template, last, -, -, becomes⟩ := analyze_of_form form domain symbols
      exact becomes.toSameElsewhere

end Store

end TemplateAnalysis
