import TemplateAnalysis.Solver.Session
import TemplateAnalysis.Ssa.Build

/-! # The store of procedures

A store keeps at most one single-assignment form and at most one solver session for each procedure.
A form is built once and kept; a session is opened when it is first asked for. Loading hands the
formulas that the session does not hold yet to the session, so that a form that grows by unwinding
is loaded piece by piece.
-/

namespace TemplateAnalysis

/-- The forms and sessions of procedures, with sessions `σ` from a source `φ`. -/
structure Store (φ σ : Type) where
  source : φ
  /-- sessions are opened with support for refinement -/
  refine : Bool := false
  forms : NameMap Ssa := []
  sessions : NameMap σ := []

namespace Store

variable {φ σ : Type}

/-- The procedures that have a form, in name order. -/
def functions (store : Store φ σ) : List String := NameMap.names store.forms

/-- The form of a procedure. -/
def get? (store : Store φ σ) (name : String) : Option Ssa := NameMap.find? store.forms name

/-- The procedure has a form. -/
def contains (store : Store φ σ) (name : String) : Bool := (store.get? name).isSome

/-- The store with another form for a procedure. -/
def setForm (store : Store φ σ) (name : String) (ssa : Ssa) : Store φ σ :=
  { store with forms := NameMap.insert name ssa store.forms }

/-- The store with another session for a procedure. -/
def setSession (store : Store φ σ) (name : String) (session : σ) : Store φ σ :=
  { store with sessions := NameMap.insert name session store.sessions }

/-- Build the form of a procedure, unless there is one under its name. -/
def ensure (store : Store φ σ) (name : String) (procedure : Procedure) (table : SymbolTable) :
    Except BuildError (Ssa × Store φ σ) :=
  match store.get? name with
  | some ssa => .ok (ssa, store)
  | none => (Ssa.build name procedure table).map fun ssa => (ssa, store.setForm name ssa)

variable [Solver σ] [SessionSource φ σ]

/-- The session of a procedure that has a form, opened on first use. -/
def session? (store : Store φ σ) (name : String) : Option (σ × Store φ σ × Transcript) :=
  if store.contains name then
    let (session, source, opening) :=
      SessionSource.obtain store.refine (NameMap.find? store.sessions name) store.source
    some (session, { store with source }.setSession name session, opening)
  else none

/-- Assert the formulas of a procedure that have not been handed out yet in its session; gives their
number. -/
def load? (store : Store φ σ) (name : String) : Option (Nat × Store φ σ × Transcript) := do
  let ssa ← store.get? name
  let (session, store, opening) ← store.session? name
  let (formulas, ssa) := ssa.takeFormulas
  let loaded := formulas.foldl (fun session formula => Solver.assert formula session) session
  return (formulas.length, (store.setForm name ssa).setSession name loaded,
    opening ++ formulas.map fun formula => ⟨Solver.id session, .asserted formula⟩)

end Store

end TemplateAnalysis
