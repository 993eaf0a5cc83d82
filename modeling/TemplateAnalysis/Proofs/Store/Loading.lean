import TemplateAnalysis.Proofs.Solver.Restoration
import TemplateAnalysis.Proofs.Store.Operations
import TemplateAnalysis.Template.Predicates

/-! # Loading piece by piece

The nodes of a form that count as loaded stand in front of those that do not: unwinding appends
nodes that do not, and loading marks all of them. As long as the nodes in front stay as they are,
the session holds exactly their formulas, in order and each once, whatever else the client does.
Turning assertions into constraints is the one operation that adds formulas to nodes in front. They
are never handed out, so after it the session holds less than the form says.
-/

namespace TemplateAnalysis

namespace Node

/-- The constraints that the assertions of a node become, under its enabling condition. -/
def converted (node : Node) : List Expr :=
  (node.assertions.map (Expr.implies (.var node.guard))).map node.enabling.implies

theorem formulas_constrained (node : Node) :
    node.constrained.formulas = node.formulas ++ node.converted := by
  simp [formulas, constrained, converted]

/-- The formulas of nodes stay when assertions become constraints, and new ones come exactly if
there are assertions. -/
theorem flatMap_constrained (nodes : List Node) :
    (nodes.flatMap formulas).Sublist ((nodes.map constrained).flatMap formulas) ∧
      (nodes.flatMap formulas = (nodes.map constrained).flatMap formulas ↔
        ∀ node ∈ nodes, node.assertions = []) := by
  induction nodes with
  | nil => simp
  | cons node rest ih =>
    obtain ⟨sublist, same_iff⟩ := ih
    simp only [List.map_cons, List.flatMap_cons, formulas_constrained, List.append_assoc,
      List.append_cancel_left_eq, List.forall_mem_cons, ← same_iff]
    refine ⟨(sublist.trans (List.sublist_append_right _ _)).append_left _, fun same => ?_, ?_⟩
    · have lengths := congrArg List.length same
      have bound := sublist.length_le
      rw [List.length_append] at lengths
      have none : node.converted = [] := List.length_eq_zero_iff.mp (by omega)
      rw [none, List.nil_append] at same
      exact ⟨by simpa [converted] using none, same⟩
    · rintro ⟨none, same⟩
      rw [converted, none, ← same]
      rfl

end Node

open ScopedSolver

/-- How far a form has been handed to its session, which holds nothing as long as it has not been
opened. What was sent are formulas of the nodes in front, and all of them unless a conversion came
too late. -/
structure Progress {σ : Type} [Solver σ] [ScopedSolver σ] (late : Prop) (ssa : Ssa)
    (held : Option σ) (front back : List Node) (sent : List Expr) : Prop where
  nodes_eq : ssa.nodes = front ++ back
  loaded : ∀ node ∈ front, node.loaded = true
  pending : ∀ node ∈ back, node.loaded = false
  scopes_eq : held.elim [[]] scopes = [sent]
  sublist : sent.Sublist (front.flatMap Node.formulas)
  exact_iff : sent = front.flatMap Node.formulas ↔ ¬ late

namespace Progress

variable {σ : Type} [Solver σ] [ScopedSolver σ] {late : Prop} {ssa : Ssa} {held : Option σ}
  {front back : List Node} {sent : List Expr}

/-- Of a form that has just been built, nothing has been handed out. -/
theorem start (unloaded : ∀ node ∈ ssa.nodes, node.loaded = false) (timely : ¬ late) :
    Progress late ssa (none : Option σ) [] ssa.nodes [] :=
  ⟨rfl, nofun, unloaded, rfl, List.Sublist.refl _, by simpa using timely⟩

theorem pendingFormulas_eq (progress : Progress late ssa held front back sent) :
    ssa.pendingFormulas = back.flatMap Node.formulas := by
  have none : front.filter (fun node => !node.loaded) = [] := by
    rw [List.filter_eq_nil_iff]
    intro node isFront
    simp [progress.loaded node isFront]
  have all : back.filter (fun node => !node.loaded) = back := by
    rw [List.filter_eq_self]
    intro node isBack
    simp [progress.pending node isBack]
  rw [Ssa.pendingFormulas, progress.nodes_eq, List.filter_append, none, all, List.nil_append]

/-- What a session holds is all that matters about it. -/
theorem of_scopes (progress : Progress late ssa held front back sent) {session : σ}
    (kept : scopes session = [sent]) : Progress late ssa (some session) front back sent :=
  { progress with scopes_eq := kept }

/-- Loading sends what is pending. -/
theorem load (progress : Progress late ssa held front back sent) {session : σ}
    (asserted : scopes session = [sent ++ ssa.pendingFormulas]) :
    Progress late (ssa.setLoaded true) (some session) (ssa.setLoaded true).nodes []
      (sent ++ ssa.pendingFormulas) := by
  have formulas : (ssa.setLoaded true).nodes.flatMap Node.formulas =
      front.flatMap Node.formulas ++ ssa.pendingFormulas := by
    rw [progress.pendingFormulas_eq, ← List.flatMap_append, ← progress.nodes_eq]
    exact List.flatMap_map ..
  refine ⟨(List.append_nil _).symm, ?_, nofun, asserted, ?_, ?_⟩
  · intro node isNode
    obtain ⟨origin, -, rfl⟩ := List.mem_map.mp isNode
    rfl
  · rw [formulas]
    exact progress.sublist.append_right _
  · rw [formulas, List.append_cancel_right_eq]
    exact progress.exact_iff

/-- Unwinding appends nodes behind. -/
theorem unwind (progress : Progress late ssa held front back sent) {heads : List Nat}
    {u : Unwinder} {unwound : Ssa} (run : Unwinds ssa heads u unwound) :
    ∃ copies, Progress late unwound held front (back ++ copies) sent := by
  obtain ⟨copies, nodes, unloaded⟩ := run.exists_nodes
  refine ⟨copies, ?_, progress.loaded, ?_, progress.scopes_eq, progress.sublist,
    progress.exact_iff⟩
  · rw [nodes, progress.nodes_eq, List.append_assoc]
  · intro node isBack
    rcases List.mem_append.mp isBack with before | here
    · exact progress.pending node before
    · exact unloaded node here

/-- Turning assertions into constraints comes too late for the nodes in front that have some. -/
theorem constrain (progress : Progress late ssa held front back sent) :
    Progress (late ∨ ∃ node ∈ ssa.nodes, node.loaded = true ∧ node.assertions ≠ [])
      ssa.constrainAssertions held (front.map Node.constrained) (back.map Node.constrained)
      sent := by
  obtain ⟨grows, same_iff⟩ := Node.flatMap_constrained front
  have lateNodes : (∃ node ∈ ssa.nodes, node.loaded = true ∧ node.assertions ≠ []) ↔
      ¬ ∀ node ∈ front, node.assertions = [] := by
    rw [progress.nodes_eq]
    simp only [List.mem_append, not_forall]
    constructor
    · rintro ⟨node, isFront | isBack, isLoaded, nonempty⟩
      · exact ⟨node, isFront, nonempty⟩
      · rw [progress.pending node isBack] at isLoaded
        cases isLoaded
    · rintro ⟨node, isFront, nonempty⟩
      exact ⟨node, .inl isFront, progress.loaded node isFront, nonempty⟩
  refine ⟨?_, ?_, ?_, progress.scopes_eq, progress.sublist.trans grows, ?_⟩
  · change ssa.nodes.map Node.constrained = _
    rw [progress.nodes_eq, List.map_append]
  · intro node isFront
    obtain ⟨origin, isOrigin, rfl⟩ := List.mem_map.mp isFront
    exact progress.loaded origin isOrigin
  · intro node isBack
    obtain ⟨origin, isOrigin, rfl⟩ := List.mem_map.mp isBack
    exact progress.pending origin isOrigin
  · rw [not_or, lateNodes, not_not, ← progress.exact_iff, ← same_iff]
    constructor
    · -- what was sent lies between the old and the new formulas of the nodes in front
      intro same
      have whole := progress.sublist.antisymm (same ▸ grows)
      exact ⟨whole, whole ▸ same⟩
    · rintro ⟨whole, same⟩
      rw [whole, same]

end Progress

namespace Store

variable {φ σ : Type}

/-- Assertions are turned into constraints at nodes that count as loaded. -/
def ConvertsLoaded (name : String) (store : Store φ σ) (operation : Operation) : Prop :=
  operation = .constrain name ∧ ∃ ssa, store.get? name = some ssa ∧
    ∃ node ∈ ssa.nodes, node.loaded = true ∧ node.assertions ≠ []

/-- Some conversion in a history came after the nodes had been loaded. -/
def ConvertedLate (name : String) (history : List (Store φ σ × Operation)) : Prop :=
  ∃ entry ∈ history, ConvertsLoaded name entry.1 entry.2

section Late

variable {history : List (Store φ σ × Operation)} {store : Store φ σ} {name : String}
  {operation : Operation}

theorem convertedLate_concat : ConvertedLate name (history ++ [(store, operation)]) ↔
    ConvertedLate name history ∨ ConvertsLoaded name store operation := by
  simp [ConvertedLate, or_and_right, exists_or]

theorem convertedLate_of_ne (other : operation ≠ .constrain name) :
    ConvertedLate name (history ++ [(store, operation)]) ↔ ConvertedLate name history := by
  rw [convertedLate_concat, or_iff_left]
  exact fun converts => other converts.1

end Late

variable [Solver σ] [ScopedSolver σ] {store next : Store φ σ} {name : String}
  {operation : Operation} {history : List (Store φ σ × Operation)}

/-- What is true of a procedure after any history: without a form it has no session and nothing was
converted; with a form it has come some way. -/
inductive Tracked (history : List (Store φ σ × Operation)) (store : Store φ σ) (name : String) :
    Prop
  | unknown (absent : store.get? name = none) (unopened : store.held? name = none)
      (timely : ¬ ConvertedLate name history)
  | known {ssa : Ssa} {front back : List Node} {sent : List Expr}
      (form : store.get? name = some ssa)
      (progress : Progress (ConvertedLate name history) ssa (store.held? name) front back sent)

theorem Tracked.of_progress {late : Prop} {ssa : Ssa} {held : Option σ} {front back : List Node}
    {sent : List Expr} (form : store.get? name = some ssa) (session : store.held? name = held)
    (isLate : ConvertedLate name history ↔ late)
    (progress : Progress late ssa held front back sent) : Tracked history store name := by
  obtain rfl := propext isLate
  subst session
  exact .known form progress

/-- A procedure is tracked by what the store keeps of it and the conversions made. -/
theorem Tracked.of_same {later : List (Store φ σ × Operation)}
    (tracked : Tracked history store name) (form : next.get? name = store.get? name)
    (session : next.held? name = store.held? name)
    (late : ConvertedLate name later ↔ ConvertedLate name history) : Tracked later next name := by
  cases tracked with
  | unknown absent unopened timely =>
    exact .unknown (form.trans absent) (session.trans unopened) (late.not.mpr timely)
  | known known progress => exact .of_progress (form.trans known) session late progress

variable [SessionSource φ σ]

/-- Loading marks all nodes and adds what was pending to the session, whether or not an analysis
follows. -/
theorem Performs.loading_cases (performs : store.Performs operation next)
    (loading : operation.isLoading = true) :
    (store.get? operation.target = none ∧ next = store) ∨ ∃ ssa session,
      store.get? operation.target = some ssa ∧
      Becomes operation.target (ssa.setLoaded true) session store next ∧
      ∀ sent, scopes (store.sessionOf operation.target) = [sent] →
        scopes session = [sent ++ ssa.pendingFormulas] := by
  cases performs with
  | loaded loads =>
    obtain ⟨ssa, form, becomes⟩ := load?_eq_some loads
    exact .inr ⟨ssa, _, form, becomes, fun sent kept => scopes_assertAll kept _⟩
  | notLoaded refusal => exact .inl ⟨load?_eq_none_iff.mp refusal, rfl⟩
  | @analyzed name _ _ _ _ _ domain symbols returned =>
    cases form : store.get? name with
    | none => exact .inl ⟨form, analyze_of_absent form domain symbols⟩
    | some ssa =>
      obtain ⟨outcome, template, last, explored, outcome_eq, becomes⟩ :=
        analyze_of_form form domain symbols
      refine .inr ⟨ssa, _, form, becomes, fun sent kept => ?_⟩
      refine Run.scopes_explore explored ?_ (scopes_assertAll kept _)
      rintro row rfl
      exact returned row outcome_eq
  | _ => cases loading

variable [ScopedSource φ]

theorem scopes_sessionOf (store : Store φ σ) (name : String) :
    scopes (store.sessionOf name) = (store.held? name).elim [[]] scopes := by
  unfold sessionOf
  cases store.held? name with
  | none => exact ScopedSource.scopes_allocate store.refine store.source
  | some session => rfl

/-- After loading, everything counts as loaded. -/
theorem Tracked.exists_sent {ssa : Ssa} (tracked : Tracked history store operation.target)
    (performs : store.Performs operation next) (loading : operation.isLoading = true)
    (form : store.get? operation.target = some ssa) :
    ∃ session sent, Becomes operation.target (ssa.setLoaded true) session store next ∧
      Progress (ConvertedLate operation.target history) (ssa.setLoaded true) (some session)
        (ssa.setLoaded true).nodes [] sent := by
  cases tracked with
  | unknown absent => cases absent.symm.trans form
  | known known progress =>
    cases known.symm.trans form
    rcases performs.loading_cases loading with ⟨absent, -⟩ | ⟨_, session, same, becomes, asserts⟩
    · cases absent.symm.trans form
    · cases same.symm.trans form
      have kept := (scopes_sessionOf store operation.target).trans progress.scopes_eq
      exact ⟨session, _, becomes, progress.load (asserts _ kept)⟩

theorem Tracked.load (tracked : Tracked history store operation.target)
    (performs : store.Performs operation next) (loading : operation.isLoading = true) :
    Tracked (history ++ [(store, operation)]) next operation.target := by
  have late : ConvertedLate operation.target (history ++ [(store, operation)]) ↔
      ConvertedLate operation.target history := by
    refine convertedLate_of_ne fun converts => ?_
    rw [converts] at loading
    cases loading
  cases form : store.get? operation.target with
  | none =>
    rcases performs.loading_cases loading with ⟨-, rfl⟩ | ⟨ssa, session, same, -⟩
    · exact tracked.of_same rfl rfl late
    · cases form.symm.trans same
  | some ssa =>
    obtain ⟨session, sent, becomes, progress⟩ := tracked.exists_sent performs loading form
    exact .of_progress becomes.get?_eq becomes.held?_eq late progress

/-- What an operation keeps about its own procedure. -/
theorem Tracked.perform_own (tracked : Tracked history store operation.target)
    (performs : store.Performs operation next) :
    Tracked (history ++ [(store, operation)]) next operation.target := by
  have whole := performs
  cases performs with
  | @ensured name procedure table ssa next ensures =>
    have late : ConvertedLate name (history ++ [(store, .ensure name procedure table)]) ↔
        ConvertedLate name history := convertedLate_of_ne nofun
    rcases ensure_cases ensures with ⟨-, rfl⟩ | ⟨absent, built, rfl⟩
    · exact tracked.of_same rfl rfl late
    · cases tracked with
      | known form => cases absent.symm.trans form
      | unknown _ unopened timely =>
        obtain ⟨frame, -, rfl⟩ := Ssa.frame_of_build built
        exact .of_progress (get?_setForm_self ..) unopened late
          (.start (Frame.loaded_complete procedure.params) timely)
  | refused refusal => exact tracked.of_same rfl rfl (convertedLate_of_ne nofun)
  | @consulted name questions session fetched opening fetches closed =>
    obtain ⟨ssa, form, rfl, becomes⟩ := session?_eq_some fetches
    cases tracked with
    | unknown absent => cases absent.symm.trans form
    | known known progress =>
      cases known.symm.trans form
      have kept := (scopes_sessionOf store name).trans progress.scopes_eq
      have consulted := becomes.toSameElsewhere.becomes becomes.get?_eq
        (questions.foldl Question.ask (store.sessionOf name))
      exact .of_progress consulted.get?_eq consulted.held?_eq (convertedLate_of_ne nofun)
        (progress.of_scopes (scopes_ask kept closed))
  | notConsulted refusal => exact tracked.of_same rfl rfl (convertedLate_of_ne nofun)
  | loaded => exact tracked.load whole rfl
  | notLoaded => exact tracked.load whole rfl
  | @unwound name heads ssa unwound u form run =>
    cases tracked with
    | unknown absent => cases absent.symm.trans form
    | known known progress =>
      cases known.symm.trans form
      obtain ⟨copies, progress⟩ := progress.unwind run
      exact .of_progress (get?_setForm_self ..) rfl (convertedLate_of_ne nofun) progress
  | @constrained name ssa form =>
    cases tracked with
    | unknown absent => cases absent.symm.trans form
    | known known progress =>
      cases known.symm.trans form
      refine .of_progress (get?_setForm_self ..) rfl ?_ progress.constrain
      rw [convertedLate_concat]
      refine or_congr_right ⟨?_, fun late => ⟨rfl, ssa, form, late⟩⟩
      rintro ⟨-, _, same, late⟩
      cases same.symm.trans form
      exact late
  | analyzed => exact tracked.load whole rfl

/-- What one operation keeps. -/
theorem Tracked.perform (tracked : Tracked history store name)
    (performs : store.Performs operation next) :
    Tracked (history ++ [(store, operation)]) next name := by
  by_cases own : name = operation.target
  · subst own
    exact tracked.perform_own performs
  · have elsewhere := performs.sameElsewhere
    refine tracked.of_same (elsewhere.forms name own) (elsewhere.sessions name own)
      (convertedLate_of_ne ?_)
    rintro rfl
    exact own rfl

/-- What every history keeps. -/
theorem Reached.tracked {source : φ} {refine : Bool} (reached : Reached source refine history store)
    (name : String) : Tracked history store name := by
  induction reached with
  | start => exact .unknown rfl rfl nofun
  | performed reached performs ih => exact ih.perform performs

/-- Without conversions, loading and analyzing leave in the session exactly the formulas of the
form, in order and each once, with all nodes marked. No operation changes another procedure, a
refused procedure changes nothing, and a form that is there is kept. -/
theorem Reached.loads_exactly {source : φ} {refine : Bool}
    (reached : Reached source refine history store)
    (unconverted : ∀ entry ∈ history, ∀ name, entry.2 ≠ .constrain name)
    (performs : store.Performs operation next) :
    (operation.isLoading = true → ∀ ssa, store.get? operation.target = some ssa →
      ∃ loaded session, next.get? operation.target = some loaded ∧
        next.held? operation.target = some session ∧
        (∀ node ∈ loaded.nodes, node.loaded = true) ∧ scopes session = [loaded.formulas]) ∧
    (∀ other, other ≠ operation.target →
      next.get? other = store.get? other ∧ next.held? other = store.held? other) ∧
    ∀ name procedure table, operation = .ensure name procedure table →
      (∀ error, store.ensure name procedure table = .error error → next = store) ∧
      ∀ ssa, store.get? name = some ssa →
        store.ensure name procedure table = .ok (ssa, store) ∧ next = store := by
  refine ⟨fun loading ssa form => ?_, fun other apart => ?_, ?_⟩
  · obtain ⟨session, sent, becomes, progress⟩ :=
      (reached.tracked operation.target).exists_sent performs loading form
    have timely : ¬ ConvertedLate operation.target history := by
      rintro ⟨entry, isEntry, converts, -⟩
      exact unconverted entry isEntry _ converts
    refine ⟨_, session, becomes.get?_eq, becomes.held?_eq, progress.loaded, ?_⟩
    rw [Ssa.formulas, ← progress.exact_iff.mpr timely]
    exact progress.scopes_eq
  · have elsewhere := performs.sameElsewhere
    exact ⟨elsewhere.forms other apart, elsewhere.sessions other apart⟩
  · rintro name procedure table rfl
    cases performs with
    | ensured ensures =>
      refine ⟨fun error refusal => ?_, fun ssa form => ?_⟩
      · cases refusal.symm.trans ensures
      · rcases ensure_cases ensures with ⟨same, rfl⟩ | ⟨absent, -⟩
        · cases same.symm.trans form
          exact ⟨ensures, rfl⟩
        · cases absent.symm.trans form
    | refused refusal =>
      refine ⟨fun _ _ => rfl, fun ssa form => ?_⟩
      simp [ensure, form] at refusal

/-- Counts down and checks the number each time. -/
def checking : Procedure where
  params := [⟨"x", .int⟩]
  body := [
    .assign ⟨"x", .int⟩ (.arith .sub (.var ⟨"x", .int⟩) (.int 1)),
    .assert (.cmp .ge (.var ⟨"x", .int⟩) (.int 0)),
    .goto (.nondet .bool) 0,
    .endFunction]

/-- A script that fails at the first question. -/
def unreliable : List Script := [{ answers := [{ outcome := .error (.backend "lost") }] }]

/-- One candidate about the number that arrives over the back edge. -/
def candidate : Domain PredicateTemplate PredicateSearch PredicateValue :=
  let arriving : Expr := .cmp .ge (.var (Name.loopBack "x" 2).int) (.int 0)
  let leaving : Expr := .cmp .ge (.var (Name.version "x" 0).int) (.int 0)
  let guard : Expr := .var (Name.guard 0).bool
  .start { number := 0, rows := [.predicate arriving leaving guard guard .loop], maxLevel := 0 } {}

/-- The analysis ended with a failure of the solver. -/
def failsInSolver {V : Type} : Except AnalysisError (AnalysisResult V) → Bool
  | .error (.failed (.solver _)) => true
  | _ => false

/-- A procedure is built, another one refused, the session consulted, the form loaded and unwound,
and an analysis fails in the middle of its first query: the session holds the formulas of the
unwound form. -/
theorem Reached.loads_exactly_checking :
    ∃ (history : List (Store (List Script) ScriptedSession × Operation)) (store : _) (loaded : Ssa)
      (session : ScriptedSession), Reached unreliable false history store ∧
      history.map (·.2) = [.ensure "f" checking [], .ensure "g" ⟨[], []⟩ [],
        .consult "f" [.push, .pop], .load "f", .unwind "f" [0]] ∧
      failsInSolver (analyze store "f" candidate []).outcome = true ∧
      (analyze store "f" candidate []).store.get? "f" = some loaded ∧
      (analyze store "f" candidate []).store.held? "f" = some session ∧
      loaded.nodes.length = 7 ∧ scopes session = [loaded.formulas] := by
  obtain ⟨_, built, session, fetched, _, _, filled, _, ssa, _, _, unwound, ensures, refusal,
    fetches, loads, isForm, made, fails, length⟩ : ∃ form built session fetched opening count filled
      transcript ssa literal u unwound,
      ({ source := unreliable } : Store (List Script) ScriptedSession).ensure "f" checking [] =
        .ok (form, built) ∧
      built.ensure "g" ⟨[], []⟩ [] = .error .emptyBody ∧
      built.session? "f" = some (session, fetched, opening) ∧
      (fetched.setSession "f" ([Question.push, .pop].foldl Question.ask session)).load? "f" =
        some (count, filled, transcript) ∧
      filled.get? "f" = some ssa ∧ Unwinder.unwind {} ssa 0 = .ok (literal, u, unwound) ∧
      failsInSolver (analyze (filled.setForm "f" unwound) "f" candidate []).outcome = true ∧
      unwound.nodes.length = 7 :=
    ⟨_, _, _, _, _, _, _, _, _, _, _, _, rfl, rfl, rfl, rfl, rfl, rfl, by decide +kernel, rfl⟩
  have reached : Reached unreliable false _ (filled.setForm "f" unwound) :=
    .performed (.performed (.performed (.performed (.performed .start (.ensured ensures))
      (.refused refusal)) (.consulted fetches rfl)) (.loaded loads))
      (.unwound isForm (.unwound .fresh made))
  have returned : ∀ row, (analyze (filled.setForm "f" unwound) "f" candidate []).outcome ≠
      .error (.failed (.missingRow row)) := by
    intro row missing
    rw [missing] at fails
    cases fails
  have form : (filled.setForm "f" unwound).get? "f" = some unwound := get?_setForm_self ..
  obtain ⟨exactly, -, -⟩ := loads_exactly reached (by simp) (.analyzed candidate [] returned)
  obtain ⟨loaded, session, isLoaded, isHeld, -, holds⟩ := exactly rfl unwound form
  obtain ⟨_, _, _, -, -, becomes⟩ := analyze_of_form form candidate []
  cases becomes.get?_eq.symm.trans isLoaded
  exact ⟨_, _, _, session, reached, rfl, fails, isLoaded, isHeld,
    by simpa [Ssa.setLoaded] using length, holds⟩

/-- Whatever happened before, loading and analyzing leave formulas of the form in the session, in
order, and all of them exactly if no assertions were turned into constraints at nodes that counted
as loaded. -/
theorem Reached.sent_eq_formulas_iff {source : φ} {refine : Bool} {ssa : Ssa}
    (reached : Reached source refine history store) (performs : store.Performs operation next)
    (loading : operation.isLoading = true) (form : store.get? operation.target = some ssa) :
    ∃ loaded session sent, next.get? operation.target = some loaded ∧
      next.held? operation.target = some session ∧ scopes session = [sent] ∧
      sent.Sublist loaded.formulas ∧
      (sent = loaded.formulas ↔ ¬ ConvertedLate operation.target history) := by
  obtain ⟨session, sent, becomes, progress⟩ :=
    (reached.tracked operation.target).exists_sent performs loading form
  exact ⟨_, session, sent, becomes.get?_eq, becomes.held?_eq, progress.scopes_eq,
    progress.sublist, progress.exact_iff⟩

/-- What the assertion becomes reaches the session if the conversion comes before the first load. -/
theorem Reached.sent_eq_formulas_checking :
    ∃ (history : List (Store (List Script) ScriptedSession × Operation)) (next : _) (loaded : Ssa)
      (session : ScriptedSession), Reached unreliable false history next ∧
      history.map (·.2) = [.ensure "f" checking [], .constrain "f", .load "f", .unwind "f" [0],
        .load "f"] ∧
      next.get? "f" = some loaded ∧ next.held? "f" = some session ∧
      scopes session = [loaded.formulas] ∧
      Expr.implies (.var (Name.guard 1).bool) (.cmp .ge (.var (Name.version "x" 0).int) (.int 0)) ∈
        loaded.formulas := by
  obtain ⟨ssa, built, _, filled, _, constrained, _, _, unwound, _, next, _, ensures, isBuilt, loads,
    isForm, made, reloads, isUnwound, unloaded, isFormula⟩ : ∃ ssa built count filled transcript
      constrained literal u unwound count' next transcript',
      ({ source := unreliable } : Store (List Script) ScriptedSession).ensure "f" checking [] =
        .ok (ssa, built) ∧
      built.get? "f" = some ssa ∧
      (built.setForm "f" ssa.constrainAssertions).load? "f" = some (count, filled, transcript) ∧
      filled.get? "f" = some constrained ∧
      Unwinder.unwind {} constrained 0 = .ok (literal, u, unwound) ∧
      (filled.setForm "f" unwound).load? "f" = some (count', next, transcript') ∧
      next.get? "f" = some (unwound.setLoaded true) ∧
      (∀ node ∈ ssa.nodes, node.loaded = false) ∧
      Expr.implies (.var (Name.guard 1).bool) (.cmp .ge (.var (Name.version "x" 0).int) (.int 0)) ∈
        (unwound.setLoaded true).formulas :=
    ⟨_, _, _, _, _, _, _, _, _, _, _, _, rfl, rfl, rfl, rfl, rfl, rfl, rfl, by decide +kernel,
      by decide +kernel⟩
  have reached : Reached unreliable false _ (filled.setForm "f" unwound) :=
    .performed (.performed (.performed (.performed .start (.ensured ensures))
      (.constrained isBuilt)) (.loaded loads)) (.unwound isForm (.unwound .fresh made))
  obtain ⟨loaded, session, sent, isLoaded, isHeld, holds, -, whole_iff⟩ :=
    sent_eq_formulas_iff reached (.loaded reloads) rfl (get?_setForm_self ..)
  cases isUnwound.symm.trans isLoaded
  refine ⟨_, _, _, session, .performed reached (.loaded reloads), rfl, isLoaded, isHeld, ?_,
    isFormula⟩
  rw [holds, whole_iff.mpr]
  rintro ⟨entry, isEntry, converts, form, isForm, node, isNode, isLoaded, -⟩
  simp only [List.nil_append, List.cons_append, List.mem_cons, List.not_mem_nil,
    or_false] at isEntry
  rcases isEntry with rfl | rfl | rfl | rfl <;> cases converts
  cases isBuilt.symm.trans isForm
  rw [unloaded node isNode] at isLoaded
  cases isLoaded

/-- What the assertion becomes does not reach the session if the conversion comes after the first
load, although the form is loaded again. -/
theorem Reached.sent_ne_formulas_checking :
    ∃ (history : List (Store (List Script) ScriptedSession × Operation)) (next : _) (loaded : Ssa)
      (session : ScriptedSession) (formula : Expr), Reached unreliable false history next ∧
      history.map (·.2) = [.ensure "f" checking [], .load "f", .constrain "f", .load "f"] ∧
      next.get? "f" = some loaded ∧ next.held? "f" = some session ∧
      formula ∈ loaded.formulas ∧ formula ∉ (scopes session).flatten := by
  obtain ⟨_, _, _, filled, _, ssa, _, next, _, loaded, session, formula, ensures, loads, isForm,
    reloads, isLoaded, isHeld, isFormula, notHeld⟩ : ∃ form built count filled transcript ssa count'
      next transcript' loaded session formula,
      ({ source := unreliable } : Store (List Script) ScriptedSession).ensure "f" checking [] =
        .ok (form, built) ∧
      built.load? "f" = some (count, filled, transcript) ∧
      filled.get? "f" = some ssa ∧
      (filled.setForm "f" ssa.constrainAssertions).load? "f" = some (count', next, transcript') ∧
      next.get? "f" = some loaded ∧ next.held? "f" = some session ∧
      formula ∈ loaded.formulas ∧ formula ∉ (scopes session).flatten :=
    ⟨_, _, _, _, _, _, _, _, _, _, _, Expr.implies (.var (Name.guard 1).bool)
      (.cmp .ge (.var (Name.version "x" 0).int) (.int 0)), rfl, rfl, rfl, rfl, rfl, rfl,
      by decide +kernel, by decide +kernel⟩
  exact ⟨_, next, loaded, session, formula, .performed (.performed (.performed (.performed .start
    (.ensured ensures)) (.loaded loads)) (.constrained isForm)) (.loaded reloads), rfl, isLoaded,
    isHeld, isFormula, notHeld⟩

end Store

end TemplateAnalysis
