import TemplateAnalysis.Proofs.Enumeration.Search

/-! # Verdicts within the bound

What a session has to answer for is told from the calls made to it: the formulas asserted in scopes
that are still open. A session of the enumerative solver keeps their parts in one list and marks
where scopes begin; closing a scope cuts the list there. If the definitions among the parts are
acyclic, the verdict is right up to the bound on guesses.
-/

namespace TemplateAnalysis

namespace Solver

/-- A call to a session. -/
inductive Call where
  | assert (formula : Expr)
  | push
  | pop
  | solve

namespace Call

/-- The session after a call. -/
def make {σ : Type} [Solver σ] (session : σ) : Call → σ
  | .assert formula => Solver.assert formula session
  | .push => Solver.push session
  | .pop => (Solver.pop session).2
  | .solve => (Solver.solve session).2

/-- The open scopes after a call, innermost first, each with its formulas in the order of assertion.
The outermost scope stays open. -/
def scopes : List (List Expr) → Call → List (List Expr)
  | scope :: outer, .assert formula => (scope ++ [formula]) :: outer
  | opened, .push => [] :: opened
  | _ :: next :: outer, .pop => next :: outer
  | opened, _ => opened

/-- The formulas asserted in scopes that are open after some calls, in the order of assertion. -/
def held (calls : List Call) : List Expr := (calls.foldl scopes [[]]).reverse.flatten

/-- Calls that close every scope they open, and no other. -/
inductive Nested : List Call → Prop
  | nil : Nested []
  | assert (formula : Expr) {calls : List Call} (rest : Nested calls) :
      Nested (.assert formula :: calls)
  | solve {calls : List Call} (rest : Nested calls) : Nested (.solve :: calls)
  | scope {inner calls : List Call} (nested : Nested inner) (rest : Nested calls) :
      Nested (.push :: (inner ++ .pop :: calls))

end Call

end Solver

open Solver (Call)

namespace EnumerativeSession

section Parts

variable {good : Expr → Prop} {e : Expr}

theorem partsAll_eq_flatMap (es : List Expr) : partsAll es = es.flatMap parts := by
  induction es with
  | nil => rfl
  | cons e es ih => rw [partsAll, ih, List.flatMap_cons]

/-- A formula is taken apart only where it is a conjunction. -/
theorem parts_cases (e : Expr) :
    (∃ es, e = .junction .and es ∧ parts e = es.flatMap parts) ∨ parts e = [e] := by
  unfold parts
  split
  · next es => exact .inl ⟨es, rfl, partsAll_eq_flatMap es⟩
  · exact .inr rfl

theorem forall_parts (split : ∀ es, good (.junction .and es) → ∀ e ∈ es, good e) (whole : good e) :
    ∀ p ∈ parts e, good p := by
  induction e using Expr.induction_on_children with
  | step e ih =>
    intro p member
    rcases parts_cases e with ⟨es, rfl, areParts⟩ | single
    · rw [areParts, List.mem_flatMap] at member
      obtain ⟨e, isOperand, member⟩ := member
      exact ih e isOperand (split es whole e isOperand) p member
    · rw [single, List.mem_singleton] at member
      rwa [member]

theorem of_forall_parts (join : ∀ es, (∀ e ∈ es, good e) → good (.junction .and es))
    (all : ∀ p ∈ parts e, good p) : good e := by
  induction e using Expr.induction_on_children with
  | step e ih =>
    rcases parts_cases e with ⟨es, rfl, areParts⟩ | single
    · refine join es fun e isOperand => ih e isOperand fun p member => all p ?_
      rw [areParts]
      exact List.mem_flatMap.mpr ⟨e, isOperand, member⟩
    · exact all e (by rw [single]; exact List.mem_singleton_self e)

/-- A conjunction is true if and only if its operands are. -/
theorem eval_and_iff {v : Valuation} {es : List Expr} :
    (Expr.junction .and es).eval v = some (.bool true) ↔
      ∀ e ∈ es, e.eval v = some (.bool true) := by
  change Expr.evalJunction v .and es = _ ↔ _
  rw [Expr.evalJunction_iff]
  simp [Connective.neutral]

/-- A formula is true if and only if all its parts are. -/
theorem forall_parts_eval_iff {v : Valuation} :
    (∀ p ∈ parts e, p.eval v = some (.bool true)) ↔ e.eval v = some (.bool true) := by
  constructor
  · exact of_forall_parts fun _ => eval_and_iff.mpr
  · intro isTrue
    exact forall_parts (fun _ => eval_and_iff.mp) isTrue

end Parts

variable {session : EnumerativeSession}

theorem pop_of_nil (opened : session.scopes = []) :
    session.pop = (.error .scopeUnderflow, session) := by
  rw [pop, opened]
  rfl

theorem pop_of_concat {marks : List Nat} {mark : Nat} (opened : session.scopes = marks ++ [mark]) :
    session.pop = (.ok (), { session with
      formulas := session.formulas.take mark
      scopes := marks }) := by
  simp only [pop, opened, List.getLast?_concat, List.dropLast_concat]

/-- Every query is answered, with a model or without. -/
theorem solve_cases (session : EnumerativeSession) :
    (∃ model, (Enumeration.Problem.ofFormulas session.formulas).solve = some model ∧
      session.solve = (.ok .sat, { session with queries := session.queries + 1, model })) ∨
    ((Enumeration.Problem.ofFormulas session.formulas).solve = none ∧
      session.solve =
        (.ok .unsat, { session with queries := session.queries + 1, model := [] })) := by
  cases found : (Enumeration.Problem.ofFormulas session.formulas).solve with
  | some model => exact .inl ⟨model, rfl, by rw [solve, found]⟩
  | none => exact .inr ⟨rfl, by rw [solve, found]⟩

theorem solve_keeps (session : EnumerativeSession) :
    session.solve.2.formulas = session.formulas ∧ session.solve.2.scopes = session.scopes := by
  rcases session.solve_cases with ⟨model, -, answer⟩ | ⟨-, answer⟩ <;> rw [answer] <;>
    exact ⟨rfl, rfl⟩

/-- Closing a scope forgets what was added since it was opened. -/
theorem pop_of_push (session : EnumerativeSession) {inside : EnumerativeSession}
    {added : List Expr} (formulas : inside.formulas = session.formulas ++ added)
    (scopes : inside.scopes = session.push.scopes) :
    inside.pop.1 = .ok () ∧ inside.pop.2.formulas = session.formulas ∧
      inside.pop.2.scopes = session.scopes := by
  rw [pop_of_concat scopes, formulas]
  exact ⟨rfl, List.take_left, rfl⟩

/-- Nested calls may add formulas behind those that are there, and leave the scopes as they are. -/
theorem nested_keeps {calls : List Call} (nested : Call.Nested calls)
    (session : EnumerativeSession) :
    (∃ added, (calls.foldl Call.make session).formulas = session.formulas ++ added) ∧
      (calls.foldl Call.make session).scopes = session.scopes := by
  induction nested generalizing session with
  | nil => exact ⟨⟨[], (List.append_nil _).symm⟩, rfl⟩
  | assert formula _ ih =>
    obtain ⟨⟨added, formulas⟩, scopes⟩ := ih (session.assert formula)
    exact ⟨⟨parts formula ++ added, formulas.trans (List.append_assoc _ _ _)⟩, scopes⟩
  | solve _ ih =>
    obtain ⟨⟨added, formulas⟩, scopes⟩ := ih session.solve.2
    obtain ⟨sameFormulas, sameScopes⟩ := session.solve_keeps
    rw [sameFormulas] at formulas
    exact ⟨⟨added, formulas⟩, scopes.trans sameScopes⟩
  | @scope inner calls _ _ ihInner ih =>
    obtain ⟨⟨inside, formulasInside⟩, scopesInside⟩ := ihInner session.push
    obtain ⟨-, sameFormulas, sameScopes⟩ := session.pop_of_push formulasInside scopesInside
    obtain ⟨⟨added, formulas⟩, scopes⟩ := ih (inner.foldl Call.make session.push).pop.2
    rw [sameFormulas] at formulas
    rw [List.foldl_cons, List.foldl_append, List.foldl_cons]
    exact ⟨⟨added, formulas⟩, scopes.trans sameScopes⟩

/-- The list of formulas and the marks that stand for a stack of scopes. -/
inductive Stores : List (List Expr) → List Expr → List Nat → Prop
  | outermost (scope : List Expr) : Stores [scope] (scope.flatMap parts) []
  | inner {outer : List (List Expr)} {before : List Expr} {marks : List Nat} (scope : List Expr)
      (stores : Stores outer before marks) :
      Stores (scope :: outer) (before ++ scope.flatMap parts) (marks ++ [before.length])

namespace Stores

variable {scope : List Expr} {scopes outer : List (List Expr)} {formulas : List Expr}
  {marks : List Nat}

theorem formulas_eq (stores : Stores scopes formulas marks) :
    formulas = scopes.reverse.flatten.flatMap parts := by
  induction stores with
  | outermost scope => simp
  | inner scope _ ih =>
    rw [List.reverse_cons, List.flatten_append, List.flatMap_append, ← ih, List.flatten_singleton]

theorem assert (stores : Stores (scope :: outer) formulas marks) (formula : Expr) :
    Stores ((scope ++ [formula]) :: outer) (formulas ++ parts formula) marks := by
  have added : (scope ++ [formula]).flatMap parts = scope.flatMap parts ++ parts formula := by
    rw [List.flatMap_append, List.flatMap_singleton]
  cases stores with
  | outermost =>
    rw [← added]
    exact .outermost _
  | inner _ stores =>
    rw [List.append_assoc, ← added]
    exact .inner _ stores

theorem push (stores : Stores scopes formulas marks) :
    Stores ([] :: scopes) formulas (marks ++ [formulas.length]) := by
  simpa using Stores.inner [] stores

/-- A call does to the list and the marks what it does to the scopes. -/
theorem make (stores : Stores scopes session.formulas session.scopes) (call : Call) :
    Stores (Call.scopes scopes call) (call.make session).formulas (call.make session).scopes := by
  cases call with
  | assert formula =>
    cases scopes with
    | nil => cases stores
    | cons scope outer => exact stores.assert formula
  | push => cases scopes <;> exact stores.push
  | pop =>
    change Stores _ session.pop.2.formulas session.pop.2.scopes
    generalize isFormulas : session.formulas = formulas, isMarks : session.scopes = marks at stores
    cases stores with
    | outermost scope =>
      rw [pop_of_nil isMarks, isFormulas, isMarks]
      exact .outermost scope
    | @inner outer before marks scope stores =>
      rw [pop_of_concat isMarks, isFormulas]
      cases outer with
      | nil => cases stores
      | cons next outer =>
        simp only [List.take_left]
        exact stores
  | solve =>
    change Stores _ session.solve.2.formulas session.solve.2.scopes
    rw [session.solve_keeps.1, session.solve_keeps.2]
    cases scopes with
    | nil => cases stores
    | cons scope outer => exact stores

/-- After any calls the session stores the parts of the formulas that are held. -/
theorem foldl_make (stores : Stores scopes session.formulas session.scopes) (calls : List Call) :
    Stores (calls.foldl Call.scopes scopes) (calls.foldl Call.make session).formulas
      (calls.foldl Call.make session).scopes := by
  induction calls generalizing scopes session with
  | nil => exact stores
  | cons call rest ih => exact ih (stores.make call)

end Stores

section Verdict

open Enumeration (Problem WithinBound)

variable {held : List Expr} (stored : session.formulas = held.flatMap parts)
  (terms : ∀ formula ∈ held, formula.isCondition = true ∧ formula.hasNondet = false)
  (acyclic : (Problem.ofFormulas session.formulas).Acyclic)

include stored terms in
/-- The parts of conditions are conditions, and mention no other symbols. -/
theorem term_of_stored {p : Expr} (member : p ∈ session.formulas) :
    p.TermOver (fun s => ∃ formula ∈ held, s ∈ formula.symbols) .bool := by
  rw [stored, List.mem_flatMap] at member
  obtain ⟨formula, isHeld, isPart⟩ := member
  obtain ⟨condition, closed⟩ := terms formula isHeld
  obtain ⟨sorted, sort⟩ := Expr.isCondition_iff.mp condition
  refine forall_parts (fun _ term => term.of_junction) ⟨sorted, closed, sort, ?_⟩ p isPart
  exact fun s occurs => ⟨formula, isHeld, Expr.mem_symbols.mpr occurs⟩

include stored terms in
theorem condition_of_stored :
    ∀ p ∈ session.formulas, p.isCondition = true ∧ p.hasNondet = false := by
  intro p member
  have term := term_of_stored stored terms member
  exact ⟨Expr.isCondition_iff.mpr ⟨term.sorted, term.sort_eq⟩, term.closed⟩

include stored terms acyclic in
/-- The model makes all formulas true and gives all their symbols values. -/
theorem eval_of_sat (sat : session.solve.1 = .ok .sat) {formula : Expr} (isHeld : formula ∈ held) :
    formula.eval session.solve.2.model.valuation = some (.bool true) ∧
      ∀ s ∈ formula.occurrences, ∃ x, session.solve.2.model.valuation s = some x ∧
        x.sort = s.sort := by
  rcases session.solve_cases with ⟨model, found, answer⟩ | ⟨-, answer⟩
  · rw [answer]
    have part : ∀ p ∈ parts formula, p.eval model.valuation = some (.bool true) ∧
        ∀ s ∈ p.occurrences, ∃ x, model.valuation s = some x ∧ x.sort = s.sort := by
      intro p isPart
      refine Problem.eval_of_solve (condition_of_stored stored terms) acyclic found ?_
      rw [stored]
      exact List.mem_flatMap.mpr ⟨formula, isHeld, isPart⟩
    refine ⟨forall_parts_eval_iff.mp fun p isPart => (part p isPart).1, ?_⟩
    refine of_forall_parts (fun es all => ?_) fun p isPart => (part p isPart).2
    rw [Expr.occurrences, Expr.occurrencesAll_eq_flatMap]
    intro s occurs
    obtain ⟨e, isOperand, occurs⟩ := List.mem_flatMap.mp occurs
    exact all e isOperand s occurs
  · rw [answer] at sat
    cases sat

include stored terms acyclic in
/-- No assignment within the bound satisfies the formulas. -/
theorem not_satisfies_of_unsat (unsat : session.solve.1 = .ok .unsat) {m : Assignment}
    (within : ∀ formula ∈ held, ∀ s ∈ formula.symbols,
      (∀ rhs, (s, rhs) ∉ (Problem.ofFormulas session.formulas).definitions) → WithinBound (m s)) :
    ¬ m.Satisfies held := by
  rcases session.solve_cases with ⟨model, -, answer⟩ | ⟨none, -⟩
  · rw [answer] at unsat
    cases unsat
  · intro satisfies
    refine Problem.not_satisfies_of_solve (condition_of_stored stored terms) acyclic none
      (m := m) ?_ ?_
    · intro s isFree
      obtain ⟨⟨p, member, occurs⟩, undefined⟩ := Problem.mem_free_ofFormulas.mp isFree
      obtain ⟨formula, isHeld, mentions⟩ := (term_of_stored stored terms member).within s occurs
      exact within formula isHeld s mentions (Problem.lookup_eq_none_iff.mp undefined)
    · rw [stored]
      intro p member
      obtain ⟨formula, isHeld, isPart⟩ := List.mem_flatMap.mp member
      exact forall_parts_eval_iff.mpr (satisfies formula isHeld) p isPart

/-- Every query is answered. If the formulas that are held are conditions without open values and
the definitions among them are acyclic, `sat` comes with a model in which all of them are true and
all their symbols have values, and `unsat` means that no assignment satisfies them that gives every
symbol without a definition a value within the bound. Closing a scope restores the formulas and the
scopes that were there when it was opened. -/
theorem solve_correct_within_bound (id : SessionId) (calls : List Call)
    {session : EnumerativeSession} (reached : session = calls.foldl Call.make { id }) :
    (session.solve.1 = .ok .sat ∨ session.solve.1 = .ok .unsat) ∧
    ((∀ formula ∈ Call.held calls, formula.isCondition = true ∧ formula.hasNondet = false) →
      (Problem.ofFormulas session.formulas).Acyclic →
      (session.solve.1 = .ok .sat → ∀ formula ∈ Call.held calls,
        formula.eval session.solve.2.model.valuation = some (.bool true) ∧
        ∀ s ∈ formula.symbols, ∃ x, session.solve.2.model.valuation s = some x ∧
          x.sort = s.sort) ∧
      (session.solve.1 = .ok .unsat → ∀ m : Assignment,
        (∀ formula ∈ Call.held calls, ∀ s ∈ formula.symbols,
          (∀ rhs, (s, rhs) ∉ (Problem.ofFormulas session.formulas).definitions) →
          WithinBound (m s)) →
        ¬ m.Satisfies (Call.held calls))) ∧
    ∀ inner, Call.Nested inner →
      (inner.foldl Call.make session.push).pop.1 = .ok () ∧
      (inner.foldl Call.make session.push).pop.2.formulas = session.formulas ∧
      (inner.foldl Call.make session.push).pop.2.scopes = session.scopes := by
  have stored : session.formulas = (Call.held calls).flatMap parts := by
    have opened : Stores [[]] ({ id } : EnumerativeSession).formulas [] := .outermost []
    rw [reached]
    exact (opened.foldl_make calls).formulas_eq
  refine ⟨?_, fun terms acyclic => ⟨fun sat formula isHeld => ?_, fun unsat m within => ?_⟩, ?_⟩
  · rcases session.solve_cases with ⟨model, -, answer⟩ | ⟨-, answer⟩
    · exact .inl (by rw [answer])
    · exact .inr (by rw [answer])
  · obtain ⟨isTrue, valued⟩ := eval_of_sat stored terms acyclic sat isHeld
    exact ⟨isTrue, fun s mentions => valued s (Expr.mem_symbols.mp mentions)⟩
  · exact not_satisfies_of_unsat stored terms acyclic unsat within
  · intro inner nested
    obtain ⟨⟨added, formulas⟩, scopes⟩ := nested_keeps nested session.push
    exact session.pop_of_push formulas scopes

/-- A number is the successor of another, which is above a limit. On the way a scope is closed, and
another one that was never opened. -/
def successorCalls (limit : Int64) : List Call := [
  .assert (.equation (.var ⟨"x", .int⟩) (.arith .add (.var ⟨"y", .int⟩) (.int 1))),
  .push, .assert (.bool false), .solve, .pop, .pop,
  .assert (.junction .and [
    .cmp .gt (.var ⟨"y", .int⟩) (.int limit), .cmp .lt (.var ⟨"x", .int⟩) (.int 20)])]

/-- The session after these calls. -/
def successorSession (limit : Int64) : EnumerativeSession :=
  (successorCalls limit).foldl Call.make { id := ⟨"enumerative", 0⟩ }

/-- The only definition is that of the successor. -/
theorem definitions_successorSession (limit : Int64) :
    (Problem.ofFormulas (successorSession limit).formulas).definitions =
      [(⟨"x", .int⟩, .arith .add (.var ⟨"y", .int⟩) (.int 1))] := rfl

theorem acyclic_successorSession (limit : Int64) :
    (Problem.ofFormulas (successorSession limit).formulas).Acyclic := by
  refine Problem.acyclic_of_rank (fun s => if s.name = "x" then 1 else 0) ?_
  rintro s t ⟨rhs, isDefinition, mentions⟩
  rw [definitions_successorSession, List.mem_singleton] at isDefinition
  cases isDefinition
  obtain rfl : t = ⟨"y", .int⟩ := by simpa [Expr.mem_symbols, Expr.occurrences] using mentions
  decide

/-- Above 3 there is a model within the bound; above 16 there is none, although there is one beyond
it. -/
theorem solve_correct_within_bound_successor :
    ((successorSession 3).solve.1 = .ok .sat ∧
      ∀ formula ∈ Call.held (successorCalls 3),
        formula.eval (successorSession 3).solve.2.model.valuation = some (.bool true)) ∧
    (successorSession 16).solve.1 = .ok .unsat ∧
      ∀ m : Assignment, WithinBound (m ⟨"y", .int⟩) →
        ¬ m.Satisfies (Call.held (successorCalls 16)) := by
  have sat : (successorSession 3).solve.1 = .ok .sat := by decide +kernel
  have unsat : (successorSession 16).solve.1 = .ok .unsat := by decide +kernel
  have conditions : ∀ limit, ∀ formula ∈ Call.held (successorCalls limit),
      formula.isCondition = true ∧ formula.hasNondet = false := by
    intro limit formula isHeld
    rcases List.mem_pair.mp isHeld with rfl | rfl <;> exact ⟨rfl, rfl⟩
  refine ⟨⟨sat, fun formula isHeld => ?_⟩, unsat, fun m within => ?_⟩
  · have correct := solve_correct_within_bound ⟨"enumerative", 0⟩ (successorCalls 3)
      (rfl : successorSession 3 = _)
    exact ((correct.2.1 (conditions 3) (acyclic_successorSession 3)).1 sat formula isHeld).1
  · have correct := solve_correct_within_bound ⟨"enumerative", 0⟩ (successorCalls 16)
      (rfl : successorSession 16 = _)
    refine (correct.2.1 (conditions 16) (acyclic_successorSession 16)).2 unsat m ?_
    intro formula isHeld s mentions undefined
    rw [definitions_successorSession] at undefined
    have symbols : s = ⟨"x", .int⟩ ∨ s = ⟨"y", .int⟩ := by
      rcases List.mem_pair.mp isHeld with rfl | rfl <;>
        simpa [Expr.mem_symbols, Expr.occurrences, Expr.occurrencesAll, or_comm] using mentions
    rcases symbols with rfl | rfl
    · exact absurd (List.mem_singleton_self _) (undefined _)
    · exact within

end Verdict

end EnumerativeSession

end TemplateAnalysis
