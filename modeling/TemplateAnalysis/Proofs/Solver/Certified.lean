import TemplateAnalysis.Name
import TemplateAnalysis.Program
import TemplateAnalysis.Proofs.Expr.Outcomes
import TemplateAnalysis.Proofs.Solver.Sessions

/-! # Sessions that answer from certificates

A certificate against some formulas is a proof that no assignment satisfies them. A session with
certificates and models at hand answers `unsat` if it holds all formulas that some certificate is
against, and `sat` if all that it holds is true in one of the models; otherwise it does not know.
Such a session is sound, also when it tires and fails after some queries. What the formulas of a
countdown say is what certificates about it rest on.
-/

namespace TemplateAnalysis

/-- Formulas that no assignment satisfies. -/
structure Refutation where
  formulas : List Expr
  refutes : ∀ m : Assignment, ¬ m.Satisfies formulas

/-- Against a literal for the violation of a condition that never has a value. -/
def Refutation.ofUnvalued (literal guard : Symbol) (condition : Expr)
    (unvalued : ∀ m : Assignment, condition.eval m.valuation = none) : Refutation where
  formulas := [.equation (.var literal) (.junction .and [.var guard, .negation condition]),
    .var literal]
  refutes m satisfies := by
    simp only [Assignment.Satisfies, List.forall_mem_cons] at satisfies
    obtain ⟨meaning, violated, -⟩ := satisfies
    obtain ⟨x, y, left, right, same⟩ := Expr.eval_equation_iff.mp meaning
    rw [violated] at left
    cases left
    obtain rfl := of_decide_eq_true (Value.bool.inj same).symm
    rcases Expr.evalJunction_iff.mp right with ⟨isFalse, -⟩ | ⟨-, allTrue⟩
    · cases isFalse
    · obtain ⟨b, value, -⟩ := Expr.eval_negation_iff.mp (allTrue (.negation condition) (by simp))
      rw [unvalued] at value
      cases value

/-- What sessions may answer from. -/
structure Certificates where
  refutations : List Refutation := []
  models : List Model := []

/-- A session that answers from certificates. -/
structure CertifiedSession where
  certificates : Certificates
  /-- the open scopes, innermost first -/
  scopes : List (List Expr) := [[]]
  model : Model := []

namespace CertifiedSession

/-- Add a formula to the innermost scope. -/
def assert (formula : Expr) (session : CertifiedSession) : CertifiedSession :=
  match session.scopes with
  | [] => { session with scopes := [[formula]] }
  | scope :: outer => { session with scopes := (formula :: scope) :: outer }

/-- Open a scope. -/
def push (session : CertifiedSession) : CertifiedSession :=
  { session with scopes := [] :: session.scopes }

/-- Close the innermost scope, unless it is the only one. -/
def pop (session : CertifiedSession) : Except SolverError Unit × CertifiedSession :=
  match session.scopes with
  | _ :: next :: outer => (.ok (), { session with scopes := next :: outer })
  | _ => (.error .scopeUnderflow, session)

/-- The formulas are all true in a model. -/
def isModel (formulas : List Expr) (model : Model) : Bool :=
  formulas.all fun formula => formula.eval model.valuation == some (.bool true)

/-- Some certificate is against formulas among the given ones. -/
def isRefuted (formulas : List Expr) (refutation : Refutation) : Bool :=
  refutation.formulas.all formulas.contains

/-- Answer from the certificates. -/
def solve (session : CertifiedSession) : Except SolverError Verdict × CertifiedSession :=
  if session.certificates.refutations.any (isRefuted session.scopes.flatten) then
    (.ok .unsat, session)
  else
    match session.certificates.models.find? (isModel session.scopes.flatten) with
    | some model => (.ok .sat, { session with model })
    | none => (.ok .unknown, session)

end CertifiedSession

instance : Solver CertifiedSession where
  id _ := ⟨"certified", 0⟩
  assert := CertifiedSession.assert
  push := CertifiedSession.push
  pop := CertifiedSession.pop
  solve := CertifiedSession.solve
  valuation session := session.model.valuation

instance : SessionSource Certificates CertifiedSession where
  allocate _ certificates := ({ certificates }, certificates)

namespace CertifiedSession

variable {certificates : Certificates} {scopes : List (List Expr)} {session : CertifiedSession}

theorem scopes_of_holds (holds : Solver.Holds (⟨certificates, [[]], []⟩ : CertifiedSession) scopes
    session) : session.scopes = scopes := by
  induction holds with
  | opened => rfl
  | assert formula _ ih =>
    change (CertifiedSession.assert _ _).scopes = _
    rw [CertifiedSession.assert, ih]
  | push _ ih => exact congrArg (List.cons []) ih
  | pop _ _ ih =>
    change (CertifiedSession.pop _).2.scopes = _
    rw [CertifiedSession.pop, ih]
  | solve _ ih =>
    rw [← ih]
    change (CertifiedSession.solve _).2.scopes = _
    unfold CertifiedSession.solve
    split
    · rfl
    · split <;> rfl

theorem unsatSound : Solver.UnsatSound (⟨certificates, [[]], []⟩ : CertifiedSession) := by
  intro scopes session holds answered m satisfies
  change (CertifiedSession.solve session).1 = _ at answered
  unfold CertifiedSession.solve at answered
  split at answered
  · next refuted =>
    obtain ⟨refutation, -, contained⟩ := List.any_eq_true.mp refuted
    refine refutation.refutes m fun formula isRefuted => satisfies formula ?_
    rw [← scopes_of_holds holds]
    simpa using List.all_eq_true.mp contained formula isRefuted
  · split at answered <;> cases answered

theorem satSound : Solver.SatSound (⟨certificates, [[]], []⟩ : CertifiedSession) := by
  intro scopes session holds answered formula isHeld
  rw [← scopes_of_holds holds] at isHeld
  change formula.eval (CertifiedSession.solve session).2.model.valuation = _
  change (CertifiedSession.solve session).1 = _ at answered
  unfold CertifiedSession.solve at answered ⊢
  split at answered
  · cases answered
  · next refuted =>
    rw [if_neg refuted]
    split at answered
    · next model found =>
      have isModel : isModel session.scopes.flatten model = true := List.find?_some found
      simpa [found] using List.all_eq_true.mp isModel formula isHeld
    · cases answered

end CertifiedSession

/-- A session that answers a number of queries and then fails. -/
structure TiringSession (σ : Type) where
  inner : σ
  patience : Nat

namespace TiringSession

variable {σ : Type} [Solver σ]

/-- Pass the query on, as long as there is patience. -/
def solve (session : TiringSession σ) : Except SolverError Verdict × TiringSession σ :=
  match session.patience with
  | 0 => (.error (.backend "out of memory"), session)
  | patience + 1 => ((Solver.solve session.inner).1, ⟨(Solver.solve session.inner).2, patience⟩)

instance : Solver (TiringSession σ) where
  id session := Solver.id session.inner
  assert formula session := { session with inner := Solver.assert formula session.inner }
  push session := { session with inner := Solver.push session.inner }
  pop session := ((Solver.pop session.inner).1,
    { session with inner := (Solver.pop session.inner).2 })
  solve := solve
  valuation session := Solver.valuation session.inner

variable {opened session : TiringSession σ} {scopes : List (List Expr)}

theorem holds_inner (holds : Solver.Holds opened scopes session) :
    Solver.Holds opened.inner scopes session.inner := by
  induction holds with
  | opened => exact .opened
  | assert formula _ ih => exact ih.assert formula
  | push _ ih => exact ih.push
  | pop _ closed ih => exact ih.pop closed
  | @solve _ session _ ih =>
    change Solver.Holds _ _ (TiringSession.solve session).2.inner
    unfold TiringSession.solve
    split
    · exact ih
    · exact ih.solve

/-- A session that tires is as sound as the one it passes its queries to. -/
theorem satSound (sound : Solver.SatSound opened.inner) : Solver.SatSound opened := by
  intro scopes session holds answered formula member
  change (TiringSession.solve session).1 = _ at answered
  change formula.eval (Solver.valuation (TiringSession.solve session).2.inner) = _
  unfold TiringSession.solve at answered ⊢
  split at answered
  · cases answered
  · exact sound scopes _ (holds_inner holds) answered formula member

end TiringSession

/-- A source of sessions that tire. -/
structure TiringSource where
  certificates : Certificates
  patience : Nat

instance : SessionSource TiringSource (TiringSession CertifiedSession) where
  allocate _ source := (⟨⟨source.certificates, [[]], []⟩, source.patience⟩, source)

/-- A computation whose result passes a test has a result. -/
theorem exists_ok_of_any {ε α : Type} {p : α → Bool} {x : Except ε α}
    (passes : x.toOption.any p = true) : ∃ a, x = .ok a ∧ p a = true := by
  cases x with
  | error _ => cases passes
  | ok a => exact ⟨a, rfl, passes⟩

/-- Counts a global down to zero. -/
def countdown : Procedure where
  params := []
  body := [
    .goto (.cmp .le (.var ⟨"x", .int⟩) (.int 0)) 3,
    .assign ⟨"x", .int⟩ (.arith .sub (.var ⟨"x", .int⟩) (.int 1)),
    .goto (.bool true) 0,
    .endFunction]

namespace Countdown

/-- The symbols of the countdown. -/
def table : SymbolTable := [("x", ⟨.int, true⟩)]

/-- The formulas of the countdown. -/
def formulas : List Expr := [
  .equation (.var (Name.phi "x" 0).int) (.conditional (.var (Name.loopSelect 2).bool)
    (.var (Name.loopBack "x" 2).int) (.var (Name.input "x").int)),
  .equation (.var (Name.guard 0).bool) (.bool true),
  .equation (.var (Name.cond 0).bool) (.cmp .le (.var (Name.phi "x" 0).int) (.int 0)),
  .equation (.var (Name.guard 1).bool)
    (.junction .and [.var (Name.guard 0).bool, .negation (.var (Name.cond 0).bool)]),
  .equation (.var (Name.version "x" 1).int) (.arith .sub (.var (Name.phi "x" 0).int) (.int 1)),
  .equation (.var (Name.guard 2).bool) (.var (Name.guard 1).bool),
  .equation (.var (Name.guard 3).bool)
    (.junction .and [.var (Name.guard 0).bool, .var (Name.cond 0).bool])]

/-- A model of the formulas, with the number on entry, the one that arrives over the back edge,
which of the two is at the head, and the number there. -/
structure Pass (m : Assignment) (input back : Int64) (select : Bool) (head : Int64) : Prop where
  isInput : m (Name.input "x").int = .int input
  isBack : m (Name.loopBack "x" 2).int = .int back
  isSelect : m (Name.loopSelect 2).bool = .bool select
  isHead : m (Name.phi "x" 0).int = .int head
  merges : head = if select then back else input
  descends : m (Name.version "x" 1).int = .int (head - 1)
  enters : m (Name.guard 0).bool = .bool true
  passes : m (Name.guard 2).bool = .bool !decide (head ≤ 0)
  leaves : m (Name.guard 3).bool = .bool (decide (head ≤ 0))

theorem exists_pass {m : Assignment} (satisfies : m.Satisfies formulas) :
    ∃ input back select head, Pass m input back select head := by
  simp only [Assignment.Satisfies, formulas, List.forall_mem_cons] at satisfies
  obtain ⟨merged, entered, tested, stayed, assigned, passed, left, -⟩ := satisfies
  obtain ⟨input, isInput⟩ := m.int_of_sort (s := (Name.input "x").int) rfl
  obtain ⟨back, isBack⟩ := m.int_of_sort (s := (Name.loopBack "x" 2).int) rfl
  obtain ⟨select, isSelect⟩ := m.bool_of_sort (s := (Name.loopSelect 2).bool) rfl
  obtain ⟨head, isHead⟩ := m.int_of_sort (s := (Name.phi "x" 0).int) rfl
  obtain ⟨leave, isLeave⟩ := m.bool_of_sort (s := (Name.cond 0).bool) rfl
  simp only [Expr.eval, Expr.evalJunction, Assignment.valuation_apply, isInput, isBack, isSelect,
    isHead, isLeave, Option.bind_some, Value.toBool?, Value.toInt?, ArithOp.apply, CmpOp.apply,
    Connective.neutral, Option.some.injEq, Value.bool.injEq, Value.int.injEq, decide_eq_true_eq]
    at merged entered tested stayed assigned passed left
  refine ⟨input, back, select, head, isInput, isBack, isSelect, isHead, ?_, assigned, entered, ?_,
    ?_⟩
  · cases select <;> simpa using merged
  · rw [passed, ← tested]
    cases leave <;> simpa [entered] using stayed
  · rw [← tested]
    cases leave <;> simpa [entered] using left

/-- The number before a positive one is smaller and not negative. -/
theorem pred_of_positive {n : Int64} (positive : ¬ n ≤ 0) : n - 1 < n ∧ 0 ≤ n - 1 ∧ 0 ≤ n := by
  rw [Int64.le_iff_toInt_le, Int64.toInt_zero] at positive
  have small : (n - 1).toInt = n.toInt - 1 := by
    have below := n.toInt_lt
    rw [Int64.toInt_sub, Int64.toInt_one]
    exact Int.bmod_eq_of_le (by omega) (by omega)
  rw [Int64.lt_iff_toInt_lt, Int64.le_iff_toInt_le, Int64.le_iff_toInt_le, Int64.toInt_zero, small]
  omega

end Countdown

end TemplateAnalysis
