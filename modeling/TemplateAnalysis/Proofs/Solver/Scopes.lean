import TemplateAnalysis.Solver.Scripted

/-! # Sessions that keep a stack of scopes

Nothing in the interface of a solver says where an asserted formula goes. Most solvers keep a stack
of scopes: a formula is added to the innermost one, and closing a scope forgets its formulas, also
if the solver then reports a failure. For such a solver it can be said what a session holds at any
time. Sessions that follow a script are of this kind.
-/

namespace TemplateAnalysis

/-- A solver whose sessions keep a stack of scopes. -/
class ScopedSolver (σ : Type) [Solver σ] where
  /-- the open scopes, innermost first, each with its formulas in the order of assertion -/
  scopes : σ → List (List Expr)
  scopes_assert : ∀ {session : σ} {scope : List Expr} {outer : List (List Expr)},
    scopes session = scope :: outer → ∀ formula,
      scopes (Solver.assert formula session) = (scope ++ [formula]) :: outer
  scopes_push : ∀ {session : σ} {scope : List Expr} {outer : List (List Expr)},
    scopes session = scope :: outer → scopes (Solver.push session) = [] :: scope :: outer
  scopes_pop : ∀ {session : σ} {scope next : List Expr} {outer : List (List Expr)},
    scopes session = scope :: next :: outer → scopes (Solver.pop session).2 = next :: outer
  /-- the outermost scope stays open -/
  scopes_pop_single : ∀ {session : σ} {scope : List Expr},
    scopes session = [scope] → scopes (Solver.pop session).2 = [scope]
  scopes_solve : ∀ session : σ, scopes (Solver.solve session).2 = scopes session

/-- A source whose sessions hold nothing when they are opened. -/
class ScopedSource (φ : Type) {σ : Type} [Solver σ] [ScopedSolver σ] [SessionSource φ σ] :
    Prop where
  scopes_allocate : ∀ (refine : Bool) (source : φ),
    ScopedSolver.scopes (SessionSource.allocate refine source).1 = [[]]

/-- A call to a session that asserts nothing. -/
inductive Question where
  | push
  | pop
  | solve
deriving DecidableEq

namespace Question

/-- The session after a call. -/
def ask {σ : Type} [Solver σ] (session : σ) : Question → σ
  | .push => Solver.push session
  | .pop => (Solver.pop session).2
  | .solve => (Solver.solve session).2

/-- How many scopes are open after a call, apart from the outermost one. -/
def depth (opened : Nat) : Question → Nat
  | .push => opened + 1
  | .pop => opened - 1
  | .solve => opened

end Question

namespace ScopedSolver

variable {σ : Type} [Solver σ] [ScopedSolver σ] {session : σ} {scope : List Expr}

/-- Formulas asserted one after the other stand in this order in the innermost scope. -/
theorem scopes_assertAll {outer : List (List Expr)} (kept : scopes session = scope :: outer)
    (formulas : List Expr) :
    scopes (formulas.foldl (fun session formula => Solver.assert formula session) session) =
      (scope ++ formulas) :: outer := by
  induction formulas generalizing session scope with
  | nil => rw [List.foldl_nil, List.append_nil, kept]
  | cons formula rest ih =>
    rw [List.foldl_cons, ih (scopes_assert kept formula), List.append_assoc]
    rfl

private theorem scopes_questions (questions : List Question) {depth : Nat}
    (kept : scopes session = List.replicate depth [] ++ [scope]) :
    scopes (questions.foldl Question.ask session) =
      List.replicate (questions.foldl Question.depth depth) [] ++ [scope] := by
  induction questions generalizing session depth with
  | nil => exact kept
  | cons question rest ih =>
    rw [List.foldl_cons, List.foldl_cons]
    apply ih
    cases question with
    | push =>
      cases depth with
      | zero => exact scopes_push kept
      | succ depth => exact scopes_push kept
    | pop =>
      cases depth with
      | zero => exact scopes_pop_single kept
      | succ depth =>
        cases depth with
        | zero => exact scopes_pop kept
        | succ depth => exact scopes_pop kept
    | solve => exact (scopes_solve session).trans kept

/-- Calls that assert nothing and leave no scope open change nothing about what is held. -/
theorem scopes_ask (kept : scopes session = [scope]) {questions : List Question}
    (closed : questions.foldl Question.depth 0 = 0) :
    scopes (questions.foldl Question.ask session) = [scope] := by
  have asked := scopes_questions questions
    (show scopes session = List.replicate 0 [] ++ [scope] from kept)
  rwa [closed] at asked

end ScopedSolver

namespace ScriptedSession

/-- The formulas, cut where scopes were opened; the marks are listed innermost first. -/
def cut (asserted : List Expr) : List Nat → List (List Expr)
  | [] => [asserted]
  | mark :: outer => asserted.drop mark :: cut (asserted.take mark) outer

theorem cut_ne_nil (asserted : List Expr) (marks : List Nat) : cut asserted marks ≠ [] := by
  cases marks <;> exact List.cons_ne_nil _ _

/-- The marks do not go beyond the formulas, nor inner ones below outer ones. -/
def IsMarked (asserted : List Expr) (marks : List Nat) : Prop :=
  (asserted.length :: marks).Pairwise (· ≥ ·)

instance (asserted : List Expr) (marks : List Nat) : Decidable (IsMarked asserted marks) :=
  inferInstanceAs (Decidable (List.Pairwise _ _))

/-- The open scopes, innermost first, of a session whose marks are in order. -/
def openScopes (session : ScriptedSession) : List (List Expr) :=
  if IsMarked session.asserted session.scopes.reverse then
    cut session.asserted session.scopes.reverse
  else []

variable {session : ScriptedSession} {scope : List Expr} {outer : List (List Expr)}

theorem isMarked_of_openScopes (kept : session.openScopes = scope :: outer) :
    IsMarked session.asserted session.scopes.reverse ∧
      cut session.asserted session.scopes.reverse = scope :: outer := by
  unfold openScopes at kept
  split at kept
  · next isMarked => exact ⟨isMarked, kept⟩
  · cases kept

theorem cut_append_singleton {asserted : List Expr} {marks : List Nat}
    (isMarked : IsMarked asserted marks) (isCut : cut asserted marks = scope :: outer)
    (formula : Expr) : cut (asserted ++ [formula]) marks = (scope ++ [formula]) :: outer := by
  cases marks with
  | nil =>
    cases isCut
    rfl
  | cons mark marks =>
    have within : mark ≤ asserted.length := (List.pairwise_cons.mp isMarked).1 mark (by simp)
    cases isCut
    simp only [cut, List.drop_append_of_le_length within, List.take_append_of_le_length within]

theorem openScopes_assert (kept : session.openScopes = scope :: outer) (formula : Expr) :
    (session.assert formula).openScopes = (scope ++ [formula]) :: outer := by
  obtain ⟨isMarked, isCut⟩ := isMarked_of_openScopes kept
  have still : IsMarked (session.asserted ++ [formula]) session.scopes.reverse := by
    refine List.pairwise_cons.mpr ⟨fun mark isMark => ?_, (List.pairwise_cons.mp isMarked).2⟩
    have within := (List.pairwise_cons.mp isMarked).1 mark isMark
    simp only [List.length_append, List.length_singleton] at within ⊢
    omega
  exact (if_pos still).trans (cut_append_singleton isMarked isCut formula)

theorem openScopes_push (kept : session.openScopes = scope :: outer) :
    session.push.openScopes = [] :: scope :: outer := by
  obtain ⟨isMarked, isCut⟩ := isMarked_of_openScopes kept
  have marks : session.push.scopes.reverse = session.asserted.length :: session.scopes.reverse := by
    simp [push]
  have still : IsMarked session.asserted (session.asserted.length :: session.scopes.reverse) :=
    List.pairwise_cons.mpr ⟨fun mark isMark => by
      rcases List.mem_cons.mp isMark with rfl | isMark
      · exact Nat.le_refl _
      · exact (List.pairwise_cons.mp isMarked).1 mark isMark, isMarked⟩
  rw [openScopes, marks]
  refine (if_pos still).trans ?_
  rw [cut]
  change session.asserted.drop session.asserted.length ::
    cut (session.asserted.take session.asserted.length) session.scopes.reverse = _
  rw [List.drop_length, List.take_length, isCut]

/-- Whatever closing a scope answers, the formulas are as they were when it was opened. -/
theorem pop_of_concat {marks : List Nat} {mark : Nat} (opened : session.scopes = marks ++ [mark]) :
    session.pop.2.asserted = session.asserted.take mark ∧ session.pop.2.scopes = marks := by
  simp only [pop, opened, List.getLast?_concat, List.dropLast_concat]
  split <;> exact ⟨rfl, rfl⟩

theorem openScopes_pop {next : List Expr} (kept : session.openScopes = scope :: next :: outer) :
    session.pop.2.openScopes = next :: outer := by
  obtain ⟨isMarked, isCut⟩ := isMarked_of_openScopes kept
  rcases List.eq_nil_or_concat session.scopes with none | ⟨marks, mark, opened⟩
  · rw [none] at isCut
    cases isCut
  · rw [List.concat_eq_append] at opened
    obtain ⟨asserted, scopes⟩ := pop_of_concat opened
    rw [opened, List.reverse_concat] at isMarked isCut
    obtain ⟨bounded, ordered⟩ := List.pairwise_cons.mp isMarked
    have within : mark ≤ session.asserted.length := bounded mark List.mem_cons_self
    have still : IsMarked (session.asserted.take mark) marks.reverse := by
      rw [IsMarked, List.length_take_of_le within]
      exact ordered
    rw [openScopes, asserted, scopes, if_pos still]
    exact (List.cons.inj isCut).2

theorem openScopes_pop_single (kept : session.openScopes = [scope]) :
    session.pop.2.openScopes = [scope] := by
  obtain ⟨isMarked, isCut⟩ := isMarked_of_openScopes kept
  rcases List.eq_nil_or_concat session.scopes with none | ⟨marks, mark, opened⟩
  · have unchanged : session.pop.2 = { session with pops := session.pops + 1 } := by
      simp [pop, none]
    rw [unchanged]
    exact kept
  · rw [opened, List.concat_eq_append, List.reverse_concat] at isCut
    exact absurd (List.cons.inj isCut).2 (cut_ne_nil _ _)

end ScriptedSession

instance : ScopedSolver ScriptedSession where
  scopes := ScriptedSession.openScopes
  scopes_assert kept := ScriptedSession.openScopes_assert kept
  scopes_push kept := ScriptedSession.openScopes_push kept
  scopes_pop kept := ScriptedSession.openScopes_pop kept
  scopes_pop_single kept := ScriptedSession.openScopes_pop_single kept
  scopes_solve _ := rfl

/-- A list of scripts opens a session for each of them in turn. -/
instance : SessionSource (List Script) ScriptedSession where
  allocate refine scripts :=
    ({ id := ⟨"scripted", scripts.length⟩, refine, script := scripts.headD {} }, scripts.tail)

instance : ScopedSource (List Script) where
  scopes_allocate _ _ := rfl

end TemplateAnalysis
