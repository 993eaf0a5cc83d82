import TemplateAnalysis.Proofs.Solver.Certified
import TemplateAnalysis.Proofs.Template.Coefficients

/-! # Counterexamples to ranking functions

The session of a row collects the constraint of every transition that the row was told of, so a tuple
read off a model of the session ranks them all. A search that fails has collected its constraint but
leaves the tuple as it was: the next search that is answered makes up for it.
-/

namespace TemplateAnalysis

namespace RankingTemplate

/-- The numbers of the variables of a row before and after a transition. -/
structure Transition where
  pre : List Int64
  post : List Int64
deriving DecidableEq

namespace Transition

/-- The transition that a valuation describes. -/
def ofValuation (m : Valuation) (vars : List (Expr × Expr)) : Transition :=
  ⟨vector m (vars.map (·.1)), vector m (vars.map (·.2))⟩

/-- The variables have the numbers of the transition. -/
structure Describes (transition : Transition) (vars : List (Expr × Expr)) (v : Valuation) :
    Prop where
  pre : vars.map (·.1.eval v) = transition.pre.map fun n => some (.int n)
  post : vars.map (·.2.eval v) = transition.post.map fun n => some (.int n)

theorem Describes.lengths {transition : Transition} {vars : List (Expr × Expr)} {v : Valuation}
    (describes : transition.Describes vars v) :
    transition.pre.length = vars.length ∧ transition.post.length = vars.length := by
  have pre := congrArg List.length describes.pre
  have post := congrArg List.length describes.post
  simp only [List.length_map] at pre post
  omega

theorem length_ofValuation (m : Valuation) (vars : List (Expr × Expr)) :
    (ofValuation m vars).pre.length = vars.length ∧
      (ofValuation m vars).post.length = vars.length := by
  simp [ofValuation, vector]

end Transition

variable {φ τ : Type} [Solver τ] [SessionSource φ τ]

section Told

variable (template : RankingTemplate) (row : Nat) (vars : List (Expr × Expr))

/-- Calls to a ranking template since its sessions were forgotten, with the transitions that a row
was told of: those up to the last call that returned, and those in the calls that failed since. -/
inductive Fed :
    List Transition → List Transition → RankingSearch φ τ → RankingValue → Prop
  | fresh {search : RankingSearch φ τ} {value : RankingValue} (forgotten : search.sessions = []) :
      Fed [] [] search value
  | returned {seen unanswered : List Transition} {search : RankingSearch φ τ} {value : RankingValue}
      {changed : Bool} (fed : Fed seen unanswered search value) (m : Valuation)
      (answered : (template.refute m row search value).outcome = .ok changed) :
      Fed (seen ++ unanswered ++ [.ofValuation m vars]) []
        (template.refute m row search value).search (template.refute m row search value).value
  | failed {seen unanswered : List Transition} {search : RankingSearch φ τ} {value : RankingValue}
      {failure : Failure} (fed : Fed seen unanswered search value) (m : Valuation)
      (raised : (template.refute m row search value).outcome = .error failure) :
      Fed seen (unanswered ++ [.ofValuation m vars])
        (template.refute m row search value).search (template.refute m row search value).value
  | elsewhere {seen unanswered : List Transition} {search : RankingSearch φ τ} {value : RankingValue}
      (fed : Fed seen unanswered search value) (m : Valuation) {other : Nat} (apart : other ≠ row) :
      Fed seen unanswered (template.refute m other search value).search
        (template.refute m other search value).value
  | restart {seen unanswered : List Transition} {search : RankingSearch φ τ} {value : RankingValue}
      (fed : Fed seen unanswered search value) :
      Fed seen unanswered (TemplateDomain.restart RankingValue template search)
        (TemplateDomain.newValue (RankingSearch φ τ) template)
  | confirm {seen unanswered : List Transition} {search : RankingSearch φ τ} {value : RankingValue}
      (fed : Fed seen unanswered search value) :
      Fed seen unanswered (TemplateDomain.confirm template search value).search
        (TemplateDomain.confirm template search value).value
  | giveUp {seen unanswered : List Transition} {search : RankingSearch φ τ} {value : RankingValue}
      (fed : Fed seen unanswered search value) :
      Fed seen unanswered (TemplateDomain.giveUp template search value).search
        (TemplateDomain.giveUp template search value).value

end Told

/-- The session of a row holds the constraints of the transitions, and its models can be relied on; a
row without a session has collected none. -/
def Collects (template : RankingTemplate) (row : Nat) (transitions : List Transition)
    (sessions : List (Nat × τ)) : Prop :=
  match sessions.lookup row with
  | none => transitions = []
  | some session => ∃ (opened : τ) (scope : List Expr), Solver.SatSound opened ∧
      Solver.Holds opened [scope] session ∧
      ∀ t ∈ transitions, template.coefficientConstraint row t.pre t.post ∈ scope

omit [Solver τ] in
theorem lookup_eraseP {sessions : List (Nat × τ)} {row other : Nat} (apart : other ≠ row) :
    (sessions.eraseP (·.1 == other)).lookup row = sessions.lookup row := by
  induction sessions with
  | nil => rfl
  | cons first rest ih =>
    obtain ⟨key, session⟩ := first
    by_cases same : key = other
    · subst same
      have skipped : (row == key) = false := by simpa using apart.symm
      simp [List.lookup_cons, skipped]
    · rw [List.eraseP_cons_of_neg (by simpa using same), List.lookup_cons, List.lookup_cons, ih]

section Ask

variable {template : RankingTemplate} {row : Nat} {transitions : List Transition}
  {search : RankingSearch φ τ}

theorem lookup_ask_self (constraint : Expr) :
    (search.ask row constraint).search.sessions.lookup row = some (Solver.solve (Solver.assert
      constraint (SessionSource.obtain false (search.sessions.lookup row) search.source).1)).2 := by
  change List.lookup row (_ :: _) = _
  rw [List.lookup_cons, beq_self_eq_true]
  rfl

theorem lookup_ask (constraint : Expr) {other : Nat} (apart : other ≠ row) :
    (search.ask other constraint).search.sessions.lookup row = search.sessions.lookup row := by
  have skipped : (row == other) = false := by simpa using apart.symm
  change List.lookup row (_ :: _) = _
  rw [List.lookup_cons, skipped]
  exact lookup_eraseP apart

/-- A search adds the constraint of its transition, and a model that it finds satisfies the
constraints of all transitions so far. -/
theorem Collects.ask (sound : ∀ source : φ, Solver.SatSound (SessionSource.allocate false source).1)
    (collects : template.Collects row transitions search.sessions) (t : Transition) :
    let asked := search.ask row (template.coefficientConstraint row t.pre t.post)
    template.Collects row (transitions ++ [t]) asked.search.sessions ∧
      (asked.verdict = .ok .sat → ∀ s ∈ transitions ++ [t],
        (template.coefficientConstraint row s.pre s.post).eval asked.found =
          some (.bool true)) := by
  intro asked
  obtain ⟨opened, scope, satSound, holds, held⟩ : ∃ (opened : τ) (scope : List Expr),
      Solver.SatSound opened ∧ Solver.Holds opened [scope]
        (SessionSource.obtain false (search.sessions.lookup row) search.source).1 ∧
      ∀ s ∈ transitions, template.coefficientConstraint row s.pre s.post ∈ scope := by
    unfold Collects at collects
    split at collects
    · next unopened =>
      rw [unopened, collects]
      exact ⟨_, [], sound search.source, .opened, nofun⟩
    · next session isOpen =>
      rw [isOpen]
      exact collects
  have holds := holds.assert (template.coefficientConstraint row t.pre t.post)
  have held : ∀ s ∈ transitions ++ [t], template.coefficientConstraint row s.pre s.post ∈
      template.coefficientConstraint row t.pre t.post :: scope := by
    intro s member
    rcases List.mem_append.mp member with earlier | isLast
    · exact List.mem_cons_of_mem _ (held s earlier)
    · rw [List.mem_singleton.mp isLast]
      exact List.mem_cons_self
  constructor
  · rw [Collects, lookup_ask_self]
    exact ⟨opened, _, satSound, holds.solve, held⟩
  · intro found s member
    refine satSound _ _ holds found _ ?_
    rw [List.flatten_singleton]
    exact held s member

end Ask

/-- Only a model gives a row a tuple. -/
theorem rankFound_eq_lexicographic {template : RankingTemplate} {row width : Nat}
    {found : Valuation} {verdict : Verdict} {tuple : List (List Int64)}
    (isTuple : template.rankFound row width found verdict = .lexicographic tuple) :
    verdict = .sat ∧ template.tupleOf row width found = tuple := by
  cases verdict with
  | sat => exact ⟨rfl, Rank.lexicographic.inj isTuple⟩
  | unsat => cases isTuple
  | unknown => cases isTuple

/-- What a row over `width` variables has learned from the transitions it was told of. -/
structure Learns (template : RankingTemplate) (row width : Nat) (seen unanswered : List Transition)
    (search : RankingSearch φ τ) (value : RankingValue) : Prop where
  fits : ∀ t ∈ seen ++ unanswered, t.pre.length = width ∧ t.post.length = width
  ranked : ∀ tuple, value[row]? = some (.lexicographic tuple) →
    ∀ t ∈ seen, ranks tuple t.pre t.post = true
  collects : search.searches < template.maxSearches →
    template.Collects row (seen ++ unanswered) search.sessions

namespace Learns

variable {template : RankingTemplate} {row : Nat} {templateRow : TemplateRow}
  {seen unanswered : List Transition} {search : RankingSearch φ τ} {value : RankingValue}

omit [SessionSource φ τ] in
theorem fresh {width : Nat} (forgotten : search.sessions = []) :
    template.Learns row width [] [] search value where
  fits := nofun
  ranked := nofun
  collects _ := by rw [forgotten]; rfl

section Told

variable (sound : ∀ source : φ, Solver.SatSound (SessionSource.allocate false source).1)
  (isRow : template.rows[row]? = some templateRow)
  (learns : template.Learns row templateRow.rankingVars.length seen unanswered search value)
  (m : Valuation)

omit [SessionSource φ τ] in
include learns in
theorem fits_told (t : Transition)
    (member : t ∈ seen ++ unanswered ++ [.ofValuation m templateRow.rankingVars]) :
    t.pre.length = templateRow.rankingVars.length ∧
      t.post.length = templateRow.rankingVars.length := by
  rcases List.mem_append.mp member with earlier | isLast
  · exact learns.fits t earlier
  · rw [List.mem_singleton.mp isLast]
    exact Transition.length_ofValuation m templateRow.rankingVars

include sound isRow learns in
theorem returned {changed : Bool}
    (answered : (template.refute m row search value).outcome = .ok changed) :
    template.Learns row templateRow.rankingVars.length
      (seen ++ unanswered ++ [.ofValuation m templateRow.rankingVars]) []
      (template.refute m row search value).search (template.refute m row search value).value := by
  have refuted := template.refuted_refute m row search value
  generalize template.refute m row search value = reply at answered refuted ⊢
  have fits := learns.fits_told m
  cases refuted with
  | givenUp spent held =>
    refine ⟨by rwa [List.append_nil], fun tuple isTuple => ?_, fun left => ?_⟩
    · rw [held] at isTuple
      cases isTuple
    · exact absurd left (Nat.not_lt.mpr spent)
  | abandoned spent held live =>
    refine ⟨by rwa [List.append_nil], fun tuple isTuple => ?_, fun left => ?_⟩
    · obtain ⟨inside, -⟩ := List.getElem?_eq_some_iff.mp held
      rw [List.getElem?_set_self inside] at isTuple
      cases isTuple
    · exact absurd left (Nat.not_lt.mpr spent)
  | answered left isOther isAsked told inside =>
    obtain rfl := Option.some.inj (isRow.symm.trans isOther)
    subst isAsked
    obtain ⟨collects, satisfied⟩ := (learns.collects left).ask sound
      (.ofValuation m templateRow.rankingVars)
    refine ⟨by rwa [List.append_nil], fun tuple isTuple t member => ?_, fun _ => ?_⟩
    · rw [List.getElem?_set_self inside, Option.some.injEq] at isTuple
      obtain ⟨rfl, rfl⟩ := rankFound_eq_lexicographic isTuple
      obtain ⟨pre, post⟩ := fits t member
      rw [← pre]
      exact ranks_of_eval_coefficientConstraint (pre.trans post.symm) (satisfied told t member)
    · rwa [List.append_nil]
  | _ => cases answered

include sound isRow learns in
/-- A failure leaves the row as it was, but its session remembers the transition. -/
theorem failed {failure : Failure}
    (raised : (template.refute m row search value).outcome = .error failure) :
    template.Learns row templateRow.rankingVars.length seen
      (unanswered ++ [.ofValuation m templateRow.rankingVars])
      (template.refute m row search value).search (template.refute m row search value).value := by
  have refuted := template.refuted_refute m row search value
  generalize template.refute m row search value = reply at raised refuted ⊢
  have fits := learns.fits_told m
  rw [List.append_assoc] at fits
  cases refuted with
  | unheld spent missing =>
    exact ⟨fits, learns.ranked, fun left => absurd left (Nat.not_lt.mpr spent)⟩
  | noRow left missing => exact absurd (isRow.symm.trans missing) nofun
  | failed left isOther isAsked | unplaced left isOther isAsked =>
    obtain rfl := Option.some.inj (isRow.symm.trans isOther)
    subst isAsked
    obtain ⟨collects, -⟩ := (learns.collects left).ask sound
      (.ofValuation m templateRow.rankingVars)
    rw [List.append_assoc] at collects
    exact ⟨fits, learns.ranked, fun _ => collects⟩
  | _ => cases raised

end Told

variable {width : Nat} (learns : template.Learns row width seen unanswered search value)

include learns

/-- What other rows are told of does not matter. -/
theorem elsewhere (m : Valuation) {other : Nat} (apart : other ≠ row) :
    template.Learns row width seen unanswered (template.refute m other search value).search
      (template.refute m other search value).value := by
  have refuted := template.refuted_refute m other search value
  generalize template.refute m other search value = reply at refuted ⊢
  have ranked : ∀ rank tuple, (value.set other rank)[row]? = some (.lexicographic tuple) →
      ∀ t ∈ seen, ranks tuple t.pre t.post = true := by
    intro rank tuple isTuple
    rw [List.getElem?_set_ne apart] at isTuple
    exact learns.ranked tuple isTuple
  have collects : ∀ constraint, search.searches < template.maxSearches →
      template.Collects row (seen ++ unanswered) (search.ask other constraint).search.sessions := by
    intro constraint left
    rw [Collects, lookup_ask constraint apart]
    exact learns.collects left
  cases refuted with
  | abandoned => exact ⟨learns.fits, ranked _, learns.collects⟩
  | answered left _ isAsked =>
    subst isAsked
    exact ⟨learns.fits, ranked _, fun _ => collects _ left⟩
  | failed left _ isAsked | unplaced left _ isAsked =>
    subst isAsked
    exact ⟨learns.fits, learns.ranked, fun _ => collects _ left⟩
  | _ => exact learns

theorem restart : template.Learns row width seen unanswered
    (TemplateDomain.restart RankingValue template search)
    (TemplateDomain.newValue (RankingSearch φ τ) template) := by
  refine ⟨learns.fits, fun tuple isTuple => ?_, learns.collects⟩
  change (template.rows.map fun _ => Rank.bottom)[row]? = _ at isTuple
  rw [List.getElem?_map] at isTuple
  obtain ⟨_, -, isBottom⟩ := Option.map_eq_some_iff.mp isTuple
  cases isBottom

end Learns

/-- Whatever calls are made, a row has learned from all transitions it was told of. -/
theorem learns_of_fed {template : RankingTemplate} {row : Nat} {templateRow : TemplateRow}
    {seen unanswered : List Transition} {search : RankingSearch φ τ} {value : RankingValue}
    (sound : ∀ source : φ, Solver.SatSound (SessionSource.allocate false source).1)
    (isRow : template.rows[row]? = some templateRow)
    (fed : template.Fed row templateRow.rankingVars seen unanswered search value) :
    template.Learns row templateRow.rankingVars.length seen unanswered search value := by
  induction fed with
  | fresh forgotten => exact .fresh forgotten
  | returned _ m answered ih => exact ih.returned sound isRow m answered
  | failed _ m raised ih => exact ih.failed sound isRow m raised
  | elsewhere _ m apart ih => exact ih.elsewhere m apart
  | restart _ ih => exact ih.restart
  | confirm _ ih => exact ⟨ih.fits, ih.ranked, ih.collects⟩
  | giveUp _ ih => exact ⟨ih.fits, ih.ranked, ih.collects⟩

/-- Coefficients that satisfy the constraint of a transition rank it over the variables, and those
that rank it satisfy the constraint where no difference overflows. So a tuple that a search has found
ranks every transition that the row was told of since the last refinement, up to the last call that
returned. -/
theorem ranks_counterexamples {template : RankingTemplate} {row : Nat} {templateRow : TemplateRow}
    (isRow : template.rows[row]? = some templateRow) :
    (∀ (w v : Valuation) (t : Transition), t.Describes templateRow.rankingVars v →
      let tuple := template.tupleOf row templateRow.rankingVars.length w
      let constrained :=
        (template.coefficientConstraint row t.pre t.post).eval w = some (.bool true)
      let decreases := (lexDecrease templateRow.rankingVars tuple).eval v = some (.bool true)
      (constrained → decreases) ∧
        (template.Assigns row templateRow.rankingVars.length w →
          (∀ component ∈ tuple,
            ExactDifference (linearValue component t.pre) (linearValue component t.post)) →
          decreases → constrained)) ∧
    ((∀ source : φ, Solver.SatSound (SessionSource.allocate false source).1) →
      ∀ (seen unanswered : List Transition) (search : RankingSearch φ τ) (value : RankingValue)
        (tuple : List (List Int64)),
        template.Fed row templateRow.rankingVars seen unanswered search value →
        value[row]? = some (.lexicographic tuple) →
        ∀ t ∈ seen, ranks tuple t.pre t.post = true ∧
          ∀ v, t.Describes templateRow.rankingVars v →
            (lexDecrease templateRow.rankingVars tuple).eval v = some (.bool true)) := by
  constructor
  · intro w v t describes tuple
    obtain ⟨pre, post⟩ := describes.lengths
    have width : tuple = template.tupleOf row t.pre.length w := by rw [pre]
    dsimp only
    rw [eval_lexDecrease describes.pre describes.post, Option.some.injEq, Value.bool.injEq, width]
    constructor
    · exact ranks_of_eval_coefficientConstraint (pre.trans post.symm)
    · intro assigned exactly
      rw [← pre] at assigned
      exact eval_coefficientConstraint_of_ranks (pre.trans post.symm) assigned exactly
  · intro sound seen unanswered search value tuple fed isTuple t member
    have ranked := (learns_of_fed sound isRow fed).ranked tuple isTuple t member
    refine ⟨ranked, fun v describes => ?_⟩
    rw [eval_lexDecrease describes.pre describes.post, ranked]

namespace Pair

/-- The variables of a loop over two numbers. -/
def row : TemplateRow := .ranking (["x", "y"].map fun name =>
  (.var (Name.loopBack name 2).int, .var (Name.version name 1).int)) (.bool true) (.bool true)

/-- The loop is to be ranked by one component. -/
def template : RankingTemplate where
  number := 0
  rows := [row]
  maxComponents := 1
  maxSearches := 2

/-- The numbers of both variables before and after a transition. -/
def transition (pre post : Int64 × Int64) : Valuation := Model.valuation [
  ((Name.loopBack "x" 2).int, .int pre.1), ((Name.loopBack "y" 2).int, .int pre.2),
  ((Name.version "x" 1).int, .int post.1), ((Name.version "y" 1).int, .int post.2)]

/-- A tuple of one component. -/
def coefficients (x y : Int64) : Model :=
  [(template.coefficient 0 0 0, .int x), (template.coefficient 0 0 1, .int y)]

/-- What sessions may answer with. -/
def certificates : Certificates := { models := [coefficients 1 0, coefficients 0 1] }

/-- Sessions that answer only one query. -/
def tiring : TiringSource := ⟨certificates, 1⟩

/-- Both variables decrease. -/
def both : Valuation := transition (3, 3) (2, 2)

/-- Only the second variable decreases. -/
def onlySecond : Valuation := transition (2, 2) (5, 1)

section Replies

variable {φ τ : Type} [Solver τ] [SessionSource φ τ] (source : φ)

/-- The reply to the first transition. -/
def first : Reply (RankingSearch φ τ) RankingValue :=
  template.refute both 0 { source } template.newValue

/-- The reply to the second transition. -/
def second : Reply (RankingSearch φ τ) RankingValue :=
  template.refute onlySecond 0 (first source).search (first source).value

end Replies

theorem ofValuation_both : Transition.ofValuation both row.rankingVars = ⟨[3, 3], [2, 2]⟩ := by
  decide +kernel

theorem ofValuation_onlySecond :
    Transition.ofValuation onlySecond row.rankingVars = ⟨[2, 2], [5, 1]⟩ := by
  decide +kernel

end Pair

/-- The first transition is ranked by the first variable; the second one replaces it by the variable
that ranks both. -/
theorem ranks_counterexamples_pair :
    (Pair.first Pair.certificates).value = [.lexicographic [[1, 0]]] ∧
    (Pair.second Pair.certificates).value = [.lexicographic [[0, 1]]] ∧
    Pair.template.Fed 0 Pair.row.rankingVars [⟨[3, 3], [2, 2]⟩, ⟨[2, 2], [5, 1]⟩] []
      (Pair.second Pair.certificates).search (Pair.second Pair.certificates).value ∧
    ranks [[0, 1]] [3, 3] [2, 2] = true ∧
    (lexDecrease Pair.row.rankingVars [[0, 1]]).eval Pair.onlySecond = some (.bool true) ∧
    (Pair.template.coefficientConstraint 0 [2, 2] [5, 1]).eval (Pair.coefficients 0 1).valuation =
      some (.bool true) := by
  obtain ⟨agrees, learned⟩ := ranks_counterexamples (φ := Certificates) (τ := CertifiedSession)
    (show Pair.template.rows[0]? = some Pair.row from rfl)
  have values : (Pair.first Pair.certificates).value = [.lexicographic [[1, 0]]] ∧
      (Pair.second Pair.certificates).value = [.lexicographic [[0, 1]]] := by decide +kernel
  obtain ⟨_, firstReturned, -⟩ := exists_ok_of_any
    (show (Pair.first Pair.certificates).outcome.toOption.any id = true by decide +kernel)
  obtain ⟨_, secondReturned, -⟩ := exists_ok_of_any
    (show (Pair.second Pair.certificates).outcome.toOption.any id = true by decide +kernel)
  have fed : Pair.template.Fed 0 Pair.row.rankingVars _ _ _ _ :=
    .returned (.returned (.fresh rfl) Pair.both firstReturned) Pair.onlySecond secondReturned
  rw [Pair.ofValuation_both, Pair.ofValuation_onlySecond] at fed
  have ranked := learned (fun _ => CertifiedSession.satSound) _ _ _ _ [[0, 1]] fed
    (by change (Pair.second Pair.certificates).value[0]? = _; rw [values.2]; rfl)
  have describes : (⟨[2, 2], [5, 1]⟩ : Transition).Describes Pair.row.rankingVars Pair.onlySecond :=
    ⟨by decide +kernel, by decide +kernel⟩
  have decreases := (ranked ⟨[2, 2], [5, 1]⟩ (by decide)).2 Pair.onlySecond describes
  have isTuple : Pair.template.tupleOf 0 Pair.row.rankingVars.length
      (Pair.coefficients 0 1).valuation = [[0, 1]] := by decide +kernel
  have agrees := agrees (Pair.coefficients 0 1).valuation Pair.onlySecond _ describes
  dsimp only at agrees
  rw [isTuple] at agrees
  refine ⟨values.1, values.2, fed, (ranked ⟨[3, 3], [2, 2]⟩ (by decide)).1, decreases, ?_⟩
  refine agrees.2 ?_ (by simp [ExactDifference, linearValue]) decreases
  intro j inside k below
  obtain rfl : j = 0 := Nat.lt_one_iff.mp inside
  rcases (by change k < 2 at below; omega : k = 0 ∨ k = 1) with rfl | rfl
  · exact ⟨0, rfl⟩
  · exact ⟨1, rfl⟩

/-- The second search fails. Its transition is held in the session, but the tuple of the first one
stays, and does not rank it. -/
theorem failed_search_keeps_tuple :
    (∀ source : TiringSource, Solver.SatSound (SessionSource.allocate false source).1) ∧
    Pair.template.rows[0]? = some Pair.row ∧
    ∃ (search : RankingSearch TiringSource (TiringSession CertifiedSession)) (value : RankingValue),
      Pair.template.Fed 0 Pair.row.rankingVars [⟨[3, 3], [2, 2]⟩] [⟨[2, 2], [5, 1]⟩] search value ∧
      value[0]? = some (.lexicographic [[1, 0]]) ∧
      (lexDecrease Pair.row.rankingVars [[1, 0]]).eval Pair.onlySecond = some (.bool false) := by
  have value : (Pair.second Pair.tiring).value = [.lexicographic [[1, 0]]] := by decide +kernel
  obtain ⟨_, returned, -⟩ := exists_ok_of_any
    (show (Pair.first Pair.tiring).outcome.toOption.any id = true by decide +kernel)
  have raised : (Pair.second Pair.tiring).outcome =
    .error (.solver (.backend "out of memory")) := rfl
  have fed : Pair.template.Fed 0 Pair.row.rankingVars _ _ _ _ :=
    .failed (.returned (.fresh rfl) Pair.both returned) Pair.onlySecond raised
  rw [Pair.ofValuation_both, Pair.ofValuation_onlySecond] at fed
  refine ⟨fun _ => TiringSession.satSound CertifiedSession.satSound, rfl, _, _, fed, ?_,
    by decide +kernel⟩
  change (Pair.second Pair.tiring).value[0]? = _
  rw [value]
  rfl

end RankingTemplate

end TemplateAnalysis
