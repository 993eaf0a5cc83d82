import Mathlib.Logic.Equiv.Basic
import Mathlib.Order.Bounds.Basic
import TemplateAnalysis.Proofs.Solver.Deciding
import TemplateAnalysis.Proofs.Template.Refutation

/-! # The selected candidates are a closure

A candidate that is violated is tried again only after another one was selected. Against a session
that decides every query nothing is lost this way: a candidate stays rejected only while some
transition violates it although all that is selected, and the candidate itself, is assumed before
it. So an iteration ends with the least set of rows that contains every row it does not let be
violated. The order in which candidates are tried does not matter, and rows that join at a higher
level take none away.

The question about a row is asked through its literal. As long as no formula mentions the literals
this makes no difference; a formula that does restricts the transitions that are looked for.
-/

namespace TemplateAnalysis

namespace PredicateTemplate

/-- The row with an index takes part at the level of the template. -/
def IsActiveAt (template : PredicateTemplate) (i : Nat) (row : TemplateRow) : Prop :=
  template.rows[i]? = some row ∧ template.isActive row = true

/-- Active rows with which no other active row can stand, where the question about each row is put
to what is held for it. -/
structure Closed (template : PredicateTemplate) (held : Nat → List Expr) (chosen : Set Nat) :
    Prop where
  active : ∀ i ∈ chosen, ∃ row, template.IsActiveAt i row
  closed : ∀ i row, template.IsActiveAt i row → ¬ template.Refutable (held i) chosen i row →
    i ∈ chosen

/-- The least closed set of rows: each of its rows is kept by all transitions that start with all of
them, and no other active row could be added. -/
structure Saturated (template : PredicateTemplate) (held : Nat → List Expr) (chosen : Set Nat) :
    Prop where
  least : IsLeast {rows | template.Closed held rows} chosen
  kept : ∀ i ∈ chosen, ∀ row, template.rows[i]? = some row →
    ¬ template.Refutable (held i) chosen i row
  maximal : ∀ i row, template.IsActiveAt i row → i ∉ chosen →
    template.Refutable (held i) chosen i row

/-- A least closed set needs each of its rows. -/
theorem Saturated.of_isLeast {template : PredicateTemplate} {held : Nat → List Expr}
    {chosen : Set Nat} (least : IsLeast {rows | template.Closed held rows} chosen) :
    template.Saturated held chosen where
  least
  kept i member row isRow refutable := by
    -- otherwise the other rows would be closed without this one
    have smaller : template.Closed held (chosen \ {i}) := by
      refine ⟨fun j isLeft => least.1.active j isLeft.1, fun j other isActive unrefuted => ?_⟩
      by_cases same : j = i
      · subst same
        obtain rfl : row = other := Option.some.inj (isRow.symm.trans isActive.1)
        exact absurd (refutable.anti Set.sdiff_subset) unrefuted
      · have kept : ¬ template.Refutable (held j) chosen j other :=
          fun refuted => unrefuted (refuted.anti Set.sdiff_subset)
        exact ⟨least.1.closed j other isActive kept, same⟩
    exact (least.2 smaller member).2 rfl
  maximal i row isActive absent := by
    by_contra unrefuted
    exact absent (least.1.closed i row isActive unrefuted)

/-- Where a search stands that has lost nothing. Every active row is selected or waits to be tried,
now or later; what is selected belongs to every closed set; and as long as nothing new is selected,
the rows rejected can be refuted. -/
structure Underway (template : PredicateTemplate) (held : Nat → List Expr)
    (search : PredicateSearch) (value : PredicateValue) : Prop where
  length : value.length = template.rows.length
  waiting : ∀ i ∈ search.untried ++ search.rejected, ∃ row, template.IsActiveAt i row
  covered : ∀ i row, template.IsActiveAt i row →
    i ∈ selected value ∨ i ∈ search.untried ++ search.rejected
  within : ∀ rows, template.Closed held rows → selected value ⊆ rows
  refuted : search.committed = false → ∀ i ∈ search.rejected, ∀ row, template.IsActiveAt i row →
    template.Refutable (held i) (selected value) i row

theorem selected_set {value : PredicateValue} {i : Nat} (inside : i < value.length) :
    selected (value.set i true) = insert i (selected value) := by
  ext j
  change (value.set i true)[j]? = some true ↔ j = i ∨ value[j]? = some true
  by_cases same : i = j
  · subst same
    simp [inside]
  · simp [List.getElem?_set_ne same, Ne.symm same]

namespace Underway

variable {template : PredicateTemplate} {held : Nat → List Expr} {search : PredicateSearch}
  {value : PredicateValue} {i : Nat} {rest : List Nat} {row : TemplateRow}

theorem lineUp : template.Underway held template.lineUp template.newValue where
  length := List.length_map _
  waiting i member := by
    simpa [PredicateTemplate.lineUp, IsActiveAt, List.mem_zipIdx_iff_getElem?] using member
  covered i row isActive := by
    refine .inr ?_
    simpa [PredicateTemplate.lineUp, List.mem_zipIdx_iff_getElem?] using ⟨row, isActive⟩
  within rows _ i isSelected := by
    change template.newValue[i]? = some true at isSelected
    rw [newValue, List.getElem?_map] at isSelected
    obtain ⟨_, _, same⟩ := Option.map_eq_some_iff.mp isSelected
    cases same
  refuted _ i member := by cases member

theorem accept (underway : template.Underway held search value)
    (first : search.untried = i :: rest) (isActive : template.IsActiveAt i row)
    (unrefuted : ¬ template.Refutable (held i) (selected value) i row) :
    template.Underway held (accepts search) (value.set i true) := by
  have inside : i < value.length := by
    rw [underway.length]
    exact (List.getElem?_eq_some_iff.mp isActive.1).1
  have untried : (accepts search).untried = rest := by
    rw [accepts, PredicateSearch.tried, first]
    rfl
  refine ⟨by rw [List.length_set, underway.length], fun j member => ?_, fun j other isOther => ?_,
    fun rows closed => ?_, fun unchanged => ?_⟩
  · rw [untried] at member
    refine underway.waiting j ?_
    rw [first]
    exact List.mem_cons_of_mem _ member
  · rw [selected_set inside, untried]
    rcases underway.covered j other isOther with isSelected | isWaiting
    · exact .inl (.inr isSelected)
    · rw [first, List.cons_append] at isWaiting
      rcases List.mem_cons.mp isWaiting with rfl | isLater
      · exact .inl (.inl rfl)
      · exact .inr isLater
  · rw [selected_set inside, Set.insert_subset_iff]
    have earlier := underway.within rows closed
    have isClosed := closed.closed i row isActive fun refutable =>
      unrefuted (refutable.anti earlier)
    exact ⟨isClosed, earlier⟩
  · cases unchanged

theorem reject (underway : template.Underway held search value)
    (first : search.untried = i :: rest) (isActive : template.IsActiveAt i row)
    (refutable : template.Refutable (held i) (selected value) i row) :
    template.Underway held (rejects search i) value := by
  have untried : (rejects search i).untried = rest := by
    rw [rejects, PredicateSearch.tried, first]
    rfl
  have members : ∀ j, j ∈ (rejects search i).untried ++ (rejects search i).rejected ↔
      j ∈ search.untried ++ search.rejected := by
    intro j
    rw [untried, first]
    simp only [rejects, List.mem_append, List.mem_cons, List.not_mem_nil, or_false]
    grind
  refine ⟨underway.length, fun j member => underway.waiting j ((members j).mp member),
    fun j other isOther => ?_, underway.within, fun unchanged j member other isOther => ?_⟩
  · rw [members]
    exact underway.covered j other isOther
  · rcases List.mem_append.mp member with isEarlier | isNew
    · exact underway.refuted unchanged j isEarlier other isOther
    · obtain rfl := List.mem_singleton.mp isNew
      obtain rfl : row = other := Option.some.inj (isActive.1.symm.trans isOther.1)
      exact refutable

/-- The rows rejected before something was selected are lined up again at the end of the line. -/
theorem endRound (underway : template.Underway held search value) :
    template.Underway held (PredicateTemplate.endRound search) value ∧
      ((PredicateTemplate.endRound search).untried = [] →
        (PredicateTemplate.endRound search).committed = false) := by
  unfold PredicateTemplate.endRound
  split
  · next again =>
    rw [Bool.and_eq_true, List.isEmpty_iff] at again
    have members : ∀ j, j ∈ search.rejected ++ [] ↔ j ∈ search.untried ++ search.rejected := by
      intro j
      rw [again.1, List.append_nil, List.nil_append]
    refine ⟨⟨underway.length, fun j member => underway.waiting j ((members j).mp member),
      fun j other isOther => ?_, underway.within, fun _ j member => ?_⟩, fun _ => rfl⟩
    · exact (underway.covered j other isOther).imp_right (members j).mpr
    · cases member
  · next goesOn =>
    refine ⟨⟨underway.length, underway.waiting, underway.covered, underway.within,
      underway.refuted⟩, fun isEmpty => ?_⟩
    simpa [show search.untried = [] from isEmpty] using goesOn

/-- With nothing left to try the selected rows are the least closed set. -/
theorem saturated (underway : template.Underway held search value)
    (nothing : search.untried = []) (unchanged : search.committed = false) :
    template.Saturated held (selected value) := by
  have allActive : template.Closed held {i | ∃ row, template.IsActiveAt i row} :=
    ⟨fun _ isActive => isActive, fun _ row isActive _ => ⟨row, isActive⟩⟩
  refine .of_isLeast ⟨⟨fun i isSelected => underway.within _ allActive isSelected,
    fun i row isActive unrefuted => ?_⟩, underway.within⟩
  rcases underway.covered i row isActive with isSelected | isWaiting
  · exact isSelected
  · rw [nothing] at isWaiting
    exact absurd (underway.refuted unchanged i isWaiting row isActive) unrefuted

end Underway

section Iterations

variable {σ : Type} [Solver σ] {opened : σ} {scopes : List (List Expr)}

/-- An iteration against a session that decides every query ends with the least closed set. -/
theorem exists_saturated (decides : Solver.Decides opened) (template : PredicateTemplate)
    {run : Run PredicateSearch PredicateValue σ}
    (holds : Solver.Holds opened scopes run.session) :
    ∃ last, (run.restarted template).fixpoint template = (.ok (), last) ∧
      last.value.length = template.rows.length ∧
      template.Saturated (template.heldFor scopes.flatten) (selected last.value) := by
  let Inv (run : Run PredicateSearch PredicateValue σ) : Prop :=
    Solver.Holds opened scopes run.session ∧
      template.Underway (template.heldFor scopes.flatten) run.search run.value ∧
      (run.search.untried = [] → run.search.committed = false)
  refine Run.exists_fixpoint Inv _ ?_ ?_ ⟨holds, Underway.lineUp, fun _ => rfl⟩
  · intro run ⟨holds, underway, _⟩ working
    obtain ⟨i, rest, first⟩ : ∃ i rest, run.search.untried = i :: rest := by
      refine List.exists_cons_of_ne_nil fun isEmpty => ?_
      change (!run.search.untried.isEmpty) = true at working
      simp [isEmpty] at working
    obtain ⟨row, isActive⟩ := underway.waiting i (by simp [first])
    obtain ⟨next, answered, still, told⟩ :=
      exists_round decides holds underway.length isActive.1 first
    refine ⟨true, next, answered, still, ?_⟩
    rcases told with ⟨unrefuted, value, search⟩ | ⟨refutable, value, search⟩
    · rw [value, search]
      exact (underway.accept first isActive unrefuted).endRound
    · rw [value, search]
      exact (underway.reject first isActive refutable).endRound
  · intro run ⟨_, underway, lined⟩ idle
    have nothing : run.search.untried = [] := by
      change (!run.search.untried.isEmpty) = false at idle
      simpa using idle
    exact ⟨underway.length, underway.saturated nothing (lined nothing)⟩

end Iterations

/-- What a row says in queries. -/
def rowFormulas (row : TemplateRow) : List Expr :=
  match row.shape with
  | .predicate pre post => [row.preGuard, row.postGuard, pre, post]
  | .ranking _ => []

/-- Neither what is held nor the rows mention the literals of the template. -/
structure Apart (template : PredicateTemplate) (held : List Expr) : Prop where
  held : ∀ e ∈ held, ∀ s ∈ e.occurrences, Run.NoLiteral template.number s
  rows : ∀ row ∈ template.rows, ∀ e ∈ rowFormulas row, ∀ s ∈ e.occurrences,
    Run.NoLiteral template.number s

section Literals

variable {template : PredicateTemplate} {held : List Expr} {row : TemplateRow} {s : Symbol}

theorem rowFormulas_predicate {pre post : Expr} (shape : row.shape = .predicate pre post) :
    rowFormulas row = [row.preGuard, row.postGuard, pre, post] := by
  rw [rowFormulas, shape]

theorem exists_of_statementBefore (occurs : s ∈ (statementBefore row).occurrences) :
    ∃ e ∈ rowFormulas row, s ∈ e.occurrences := by
  unfold statementBefore at occurs
  split at occurs
  · next pre post shape =>
    rw [rowFormulas_predicate shape]
    rcases Expr.mem_occurrences_implies occurs with inGuard | inPre
    · exact ⟨row.preGuard, by simp, inGuard⟩
    · exact ⟨pre, by simp, inPre⟩
  · cases occurs

theorem exists_of_notPost (occurs : s ∈ (notPost row).occurrences) :
    ∃ e ∈ rowFormulas row, s ∈ e.occurrences := by
  unfold notPost violation at occurs
  split at occurs
  · split at occurs
    · next pre post shape =>
      rw [rowFormulas_predicate shape]
      rcases Expr.mem_occurrences_and occurs with inGuard | inPost
      · exact ⟨row.postGuard, by simp, inGuard⟩
      · exact ⟨post, by simp, Expr.mem_occurrences_not inPost⟩
    · cases occurs
  · cases occurs

/-- A literal that nothing mentions may be true. -/
theorem refutable_heldFor_iff (apart : template.Apart held) {chosen : Set Nat} {i : Nat}
    (isRow : template.rows[i]? = some row) :
    template.Refutable (template.heldFor held i) chosen i row ↔
      template.Refutable held chosen i row := by
  refine ⟨fun ⟨m, satisfies, refutes⟩ => ⟨m, (List.forall_mem_cons.mp satisfies).2, refutes⟩,
    fun ⟨m, satisfies, assumes, violated⟩ => ?_⟩
  have unchanged : ∀ e : Expr, (∀ s ∈ e.occurrences, Run.NoLiteral template.number s) →
      e.eval (m.set (Name.violation template.number i).bool (.bool true)).valuation =
        e.eval m.valuation :=
    fun e other => Expr.eval_congr fun s occurs =>
      congrArg some (Assignment.set_other (other s occurs i))
  refine ⟨m.set (Name.violation template.number i).bool (.bool true),
    List.forall_mem_cons.mpr ⟨?_, fun e isHeld => ?_⟩,
    fun j other isOther isChosen isAssumed => ?_, ?_⟩
  · exact congrArg some (Assignment.set_self rfl)
  · rw [unchanged e (apart.held e isHeld)]
    exact satisfies e isHeld
  · rw [Assignment.holds, unchanged _ fun s occurs => ?_]
    · exact assumes j other isOther isChosen isAssumed
    · obtain ⟨e, isFormula, occurs⟩ := exists_of_statementBefore occurs
      exact apart.rows other (List.mem_of_getElem? isOther) e isFormula s occurs
  · rw [Assignment.holds, unchanged _ fun s occurs => ?_]
    · exact violated
    · obtain ⟨e, isFormula, occurs⟩ := exists_of_notPost occurs
      exact apart.rows row (List.mem_of_getElem? isRow) e isFormula s occurs

/-- As long as nothing mentions the literals, they can be left out. -/
theorem Saturated.of_apart (apart : template.Apart held) {chosen : Set Nat}
    (saturated : template.Saturated (template.heldFor held) chosen) :
    template.Saturated (fun _ => held) chosen := by
  have same : ∀ rows, template.Closed (template.heldFor held) rows ↔
      template.Closed (fun _ => held) rows := by
    intro rows
    refine ⟨fun closed => ⟨closed.active, fun i row isActive => ?_⟩,
      fun closed => ⟨closed.active, fun i row isActive => ?_⟩⟩
    · rw [← refutable_heldFor_iff apart isActive.1]
      exact closed.closed i row isActive
    · rw [refutable_heldFor_iff apart isActive.1]
      exact closed.closed i row isActive
  have least := saturated.least
  simp only [same] at least
  exact .of_isLeast least

end Literals

section Comparisons

variable {template other : PredicateTemplate} {held : List Expr} {chosen : Set Nat}

/-- A closed set of rows in another order. -/
theorem Closed.reindex (closed : other.Closed (fun _ => held) chosen) {π : Nat → Nat}
    (level : other.level = template.level)
    (reordered : ∀ i, other.rows[π i]? = template.rows[i]?) :
    template.Closed (fun _ => held) {i | π i ∈ chosen} := by
  have active : ∀ i row, other.IsActiveAt (π i) row ↔ template.IsActiveAt i row := by
    intro i row
    rw [IsActiveAt, IsActiveAt, reordered, isActive, isActive, level]
  refine ⟨fun i member => ?_, fun i row isActive unrefuted => ?_⟩
  · obtain ⟨row, isActive⟩ := closed.active (π i) member
    exact ⟨row, (active i row).mp isActive⟩
  · refine closed.closed (π i) row ((active i row).mpr isActive) fun refutable => unrefuted ?_
    obtain ⟨m, satisfies, assumes, violated⟩ := refutable
    refine ⟨m, satisfies, fun j other isOther isChosen => ?_, violated⟩
    exact assumes (π j) other ((reordered j).trans isOther) (isChosen.imp_right (congrArg π))

/-- The rows of a lower level in a set that is closed at a higher level. -/
theorem Closed.restrict {held : Nat → List Expr} {level : Nat} (lower : template.level ≤ level)
    (closed : ({ template with level } : PredicateTemplate).Closed held chosen) :
    template.Closed held {i | i ∈ chosen ∧ ∃ row, template.IsActiveAt i row} := by
  refine ⟨fun i member => member.2, fun i row isActive unrefuted => ⟨?_, row, isActive⟩⟩
  have stays : ({ template with level } : PredicateTemplate).IsActiveAt i row :=
    ⟨isActive.1, decide_eq_true (Nat.le_trans (of_decide_eq_true isActive.2) lower)⟩
  refine closed.closed i row stays fun refutable => unrefuted ?_
  have refuted : template.Refutable (held i) chosen i row := refutable
  exact refuted.anti fun j member => member.1

/-- The least closed set does not depend on the order of the rows. -/
theorem Saturated.mem_iff {π : Equiv.Perm Nat} {rows : List TemplateRow} {permuted : Set Nat}
    (reordered : ∀ i, rows[π i]? = template.rows[i]?)
    (saturated : template.Saturated (fun _ => held) chosen)
    (again : ({ template with rows } : PredicateTemplate).Saturated (fun _ => held) permuted)
    (i : Nat) : π i ∈ permuted ↔ i ∈ chosen := by
  have back : ∀ j, template.rows[π.symm j]? = rows[j]? := by
    intro j
    rw [← reordered, π.apply_symm_apply]
  have there : template.Closed (fun _ => held) {i | π i ∈ permuted} :=
    Closed.reindex again.least.1 rfl reordered
  have here : ({ template with rows } : PredicateTemplate).Closed (fun _ => held)
      {j | π.symm j ∈ chosen} := Closed.reindex saturated.least.1 rfl back
  refine ⟨fun member => ?_, fun member => saturated.least.2 there member⟩
  have found : π.symm (π i) ∈ chosen := again.least.2 here member
  rwa [π.symm_apply_apply] at found

end Comparisons

/-- Entries that are there together and are true together are the same. -/
private theorem getElem?_eq_of_iff {first second : PredicateValue} {i j : Nat}
    (inside : i < first.length ↔ j < second.length)
    (same : i ∈ selected first ↔ j ∈ selected second) : first[i]? = second[j]? := by
  change first[i]? = some true ↔ second[j]? = some true at same
  by_cases known : i < first.length
  · rw [List.getElem?_eq_getElem known, List.getElem?_eq_getElem (inside.mp known)] at same ⊢
    simpa using same
  · rw [List.getElem?_eq_none (by omega), List.getElem?_eq_none (by omega)]

section Closure

variable {σ : Type} [Solver σ] {opened : σ} {scopes : List (List Expr)}

/-- An iteration against a session that decides every query ends with the least set of active rows
that contains every active row it does not let be refuted, where the question about a row is asked
with its literal. A higher level takes no row away. If neither the formulas held nor the rows
mention the literals then they can be left out of the question, and the rows are selected in
whatever order they are listed. -/
theorem fixpoint_isLeast (decides : Solver.Decides opened) (template : PredicateTemplate)
    {run : Run PredicateSearch PredicateValue σ}
    (holds : Solver.Holds opened scopes run.session) :
    ∃ last, (run.restarted template).fixpoint template = (.ok (), last) ∧
      last.value.length = template.rows.length ∧
      template.Saturated (template.heldFor scopes.flatten) (selected last.value) ∧
      (∀ level, template.level ≤ level → ∀ again : Run PredicateSearch PredicateValue σ,
        Solver.Holds opened scopes again.session → ∃ later,
          (again.restarted { template with level }).fixpoint { template with level } =
            (.ok (), later) ∧
          selected last.value ⊆ selected later.value) ∧
      (template.Apart scopes.flatten →
        template.Saturated (fun _ => scopes.flatten) (selected last.value) ∧
        ∀ (π : Equiv.Perm Nat) (rows : List TemplateRow),
          (∀ i, rows[π i]? = template.rows[i]?) → ∀ again : Run PredicateSearch PredicateValue σ,
            Solver.Holds opened scopes again.session → ∃ later,
              (again.restarted { template with rows }).fixpoint { template with rows } =
                (.ok (), later) ∧
              ∀ i, later.value[π i]? = last.value[i]?) := by
  obtain ⟨last, fixed, length, saturated⟩ := exists_saturated decides template holds
  refine ⟨last, fixed, length, saturated, ?_, fun apart => ⟨saturated.of_apart apart, ?_⟩⟩
  · intro level lower again holds
    obtain ⟨later, fixed, -, higher⟩ := exists_saturated decides { template with level } holds
    refine ⟨later, fixed, fun i isSelected => ?_⟩
    exact (saturated.least.2 (higher.least.1.restrict lower) isSelected).1
  · intro π rows reordered again holds
    obtain ⟨later, fixed, length', permuted⟩ :=
      exists_saturated decides { template with rows } holds
    have stillApart : ({ template with rows } : PredicateTemplate).Apart scopes.flatten := by
      refine ⟨apart.held, fun row isRow => ?_⟩
      obtain ⟨j, found⟩ := List.mem_iff_getElem?.mp isRow
      refine apart.rows row (List.mem_of_getElem? (i := π.symm j) ?_)
      rw [← reordered, π.apply_symm_apply, found]
    refine ⟨later, fixed, fun i => getElem?_eq_of_iff ?_ ?_⟩
    · rw [length, length', ← not_iff_not, Nat.not_lt, Nat.not_lt, ← List.getElem?_eq_none_iff,
        ← List.getElem?_eq_none_iff, reordered]
    · exact (saturated.of_apart apart).mem_iff reordered (permuted.of_apart stillApart) i

end Closure

namespace Dependent

/-- A flag. -/
def flag (name : String) : Expr := .var ⟨name, .bool⟩

/-- The candidate that a flag is set. -/
def row (before after : String) : TemplateRow :=
  .predicate (flag before) (flag after) (.bool true) (.bool true) .loop

/-- The flag `p` is kept only as long as `q` is, `r` may be lost, and `s` belongs to a higher
level. -/
def template : PredicateTemplate :=
  { number := 0
    rows := [row "p" "p'", row "q" "q'", { row "s" "s'" with tier := 1 }, row "r" "r'"]
    maxLevel := 1 }

/-- The same rows, the first and the last exchanged. -/
def exchanged : List TemplateRow :=
  [row "r" "r'", row "q" "q'", { row "s" "s'" with tier := 1 }, row "p" "p'"]

/-- What a transition does to the flags. -/
def moves : List Equality := [⟨⟨"p'", .bool⟩, flag "q"⟩, ⟨⟨"q'", .bool⟩, flag "q"⟩]

def formulas : List Expr := moves.map Equality.formula

/-- A run against a session that holds the transition and decides every query. -/
noncomputable def run : Run PredicateSearch PredicateValue DecidingSession where
  search := {}
  value := []
  session := formulas.foldl (fun session formula => Solver.assert formula session) {}

theorem apart : template.Apart formulas.reverse where
  held := by
    have others : ∀ e ∈ formulas.reverse, ∀ s ∈ e.occurrences, s.name.toList.head? ≠ some '$' := by
      decide +kernel
    exact fun e isHeld s occurs => Run.noLiteral_of_head (others e isHeld s occurs)
  rows := by
    have others : ∀ row ∈ template.rows, ∀ e ∈ rowFormulas row, ∀ s ∈ e.occurrences,
        s.name.toList.head? ≠ some '$' := by
      decide +kernel
    exact fun row isRow e isFormula s occurs =>
      Run.noLiteral_of_head (others row isRow e isFormula s occurs)

/-- A transition from a state with all flags set that loses `r`. -/
def losing : Assignment where
  value s := if s.sort = .bool then .bool (s.name != "r'") else .int 0
  sorted s := by
    cases sort : s.sort with
    | bool => simp
    | int => simp

variable {m : Assignment} {chosen : Set Nat}

theorem holds_notPost (before after : String) :
    m.holds (notPost (row before after)) = !m.holds (flag after) := by
  have term : (flag after).TermOver (fun _ => True) .bool := @Expr.TermOver.var _ ⟨_, _⟩ trivial
  exact m.holds_not term

theorem holds_after (satisfies : m.Satisfies formulas.reverse) {before after : String}
    (isMove : ⟨⟨after, .bool⟩, flag before⟩ ∈ moves) :
    m.holds (flag after) = m.holds (flag before) := by
  have isHeld : Equality.formula _ ∈ formulas := List.mem_map_of_mem isMove
  have same := Equality.eval_formula_iff.mp (satisfies _ (List.mem_reverse.mpr isHeld))
  rw [Assignment.holds, Assignment.holds, same]
  rfl

/-- The flags that stay set are selected, and no others. -/
theorem selects (saturated : template.Saturated (fun _ => formulas.reverse) chosen) :
    0 ∈ chosen ∧ 1 ∈ chosen ∧ 2 ∉ chosen ∧ 3 ∉ chosen := by
  have closed := saturated.least.1
  have q : 1 ∈ chosen := by
    refine closed.closed 1 (row "q" "q'") ⟨rfl, rfl⟩ fun ⟨m, satisfies, assumes, violated⟩ => ?_
    have before : m.holds (flag "q") = true := assumes 1 _ rfl (.inr rfl) rfl
    have after : m.holds (flag "q'") = m.holds (flag "q") := holds_after satisfies (by decide)
    rw [holds_notPost, after, before] at violated
    cases violated
  have p : 0 ∈ chosen := by
    refine closed.closed 0 (row "p" "p'") ⟨rfl, rfl⟩ fun ⟨m, satisfies, assumes, violated⟩ => ?_
    have before : m.holds (flag "q") = true := assumes 1 _ rfl (.inl q) rfl
    have after : m.holds (flag "p'") = m.holds (flag "q") := holds_after satisfies (by decide)
    rw [holds_notPost, after, before] at violated
    cases violated
  refine ⟨p, q, fun s => ?_, fun r => ?_⟩
  · obtain ⟨row, isRow, isActive⟩ := closed.active 2 s
    cases isRow
    cases isActive
  · have satisfies : losing.Satisfies formulas.reverse := by
      unfold Assignment.Satisfies
      decide +kernel
    have assumes : ∀ row ∈ template.rows, losing.holds (statementBefore row) = true := by
      decide +kernel
    exact saturated.kept 3 r _ rfl ⟨losing, satisfies,
      fun i row isRow _ _ => assumes row (List.mem_of_getElem? isRow), by decide +kernel⟩

theorem exchanged_rows (i : Nat) : exchanged[Equiv.swap 0 3 i]? = template.rows[i]? := by
  match i with
  | 0 | 1 | 2 | 3 => rfl
  | n + 4 => rw [Equiv.swap_apply_of_ne_of_ne (by omega) (by omega)]; rfl

end Dependent

/-- The flag that is refuted at first is tried again once the flag that keeps it is selected, and in
the other order the same flags are selected. -/
theorem fixpoint_isLeast_dependent : ∃ last later,
    (Dependent.run.restarted Dependent.template).fixpoint Dependent.template = (.ok (), last) ∧
    last.value = [true, true, false, false] ∧
    (Dependent.run.restarted { Dependent.template with rows := Dependent.exchanged }).fixpoint
      { Dependent.template with rows := Dependent.exchanged } = (.ok (), later) ∧
    later.value = [false, true, false, true] := by
  have holds : Solver.Holds ({} : DecidingSession) [Dependent.formulas.reverse]
      Dependent.run.session := Solver.Holds.opened.assertAll Dependent.formulas
  obtain ⟨last, fixed, length, -, -, apart⟩ :=
    fixpoint_isLeast DecidingSession.decides Dependent.template holds
  obtain ⟨saturated, permuted⟩ := apart Dependent.apart
  obtain ⟨later, fixedToo, same⟩ := permuted (Equiv.swap 0 3) _ Dependent.exchanged_rows
    Dependent.run holds
  rw [List.flatten_singleton] at saturated
  obtain ⟨p, q, s, r⟩ := Dependent.selects saturated
  have value : last.value = [true, true, false, false] := by
    change last.value[0]? = some true at p
    change last.value[1]? = some true at q
    change ¬ last.value[2]? = some true at s
    change ¬ last.value[3]? = some true at r
    match last.value, length, p, q, s, r with
    | [_, _, _, _], _, p, q, s, r => simp_all
  refine ⟨last, later, fixed, value, fixedToo, List.ext_getElem? fun j => ?_⟩
  rw [← Equiv.swap_apply_self 0 3 j, same, value]
  match j with
  | 0 | 1 | 2 | 3 => rfl
  | n + 4 => rw [Equiv.swap_apply_of_ne_of_ne (by omega) (by omega)]; rfl

namespace Hidden

/-- The candidate that a flag is set in the end. -/
def row : TemplateRow :=
  .predicate (.bool true) (.var ⟨"x", .bool⟩) (.bool true) (.bool true) .output

def template : PredicateTemplate := { number := 0, rows := [row], maxLevel := 0 }

/-- The literal of the row is false. -/
def formulas : List Expr := [.negation (.var (Name.violation 0 0).bool)]

/-- A run against a session that holds this and decides every query. -/
noncomputable def run : Run PredicateSearch PredicateValue DecidingSession where
  search := {}
  value := []
  session := formulas.foldl (fun session formula => Solver.assert formula session) {}

end Hidden

/-- A session that holds the negation of a literal hides the violations of its row. The row is
selected although it can be refuted, and the least closed set for what is held is empty. -/
theorem fixpoint_not_isLeast_hidden :
    Solver.Decides ({} : DecidingSession) ∧
    Solver.Holds ({} : DecidingSession) [Hidden.formulas] Hidden.run.session ∧
    (∀ row ∈ Hidden.template.rows, ∀ e ∈ rowFormulas row, ∀ s ∈ e.occurrences,
      Run.NoLiteral Hidden.template.number s) ∧
    IsLeast {rows | Hidden.template.Closed (fun _ => Hidden.formulas) rows} ∅ ∧
    ∃ last, (Hidden.run.restarted Hidden.template).fixpoint Hidden.template = (.ok (), last) ∧
      last.value = [true] := by
  have holds : Solver.Holds ({} : DecidingSession) [Hidden.formulas] Hidden.run.session :=
    Solver.Holds.opened.assertAll Hidden.formulas
  obtain ⟨last, fixed, length, saturated⟩ :=
    exists_saturated DecidingSession.decides Hidden.template holds
  refine ⟨DecidingSession.decides, holds, ?_, ⟨⟨nofun, fun i row isActive unrefuted => ?_⟩,
    fun _ _ => Set.empty_subset _⟩, last, fixed, ?_⟩
  · have others : ∀ row ∈ Hidden.template.rows, ∀ e ∈ rowFormulas row, ∀ s ∈ e.occurrences,
        s.name.toList.head? ≠ some '$' := by
      decide +kernel
    exact fun row isRow e isFormula s occurs =>
      Run.noLiteral_of_head (others row isRow e isFormula s occurs)
  · -- the flag may be lost while the literal is false
    obtain ⟨rfl, rfl⟩ : i = 0 ∧ row = Hidden.row := by
      obtain ⟨isRow, -⟩ := isActive
      match i with
      | 0 => exact ⟨rfl, (Option.some.inj isRow).symm⟩
    refine absurd ⟨default, ?_, ?_, by decide +kernel⟩ unrefuted
    · unfold Assignment.Satisfies
      decide +kernel
    · rintro i row isRow - isAssumed
      match i with
      | 0 =>
        cases isRow
        cases isAssumed
  · -- no model makes the literal true
    have isSelected : 0 ∈ selected last.value := by
      by_contra absent
      obtain ⟨m, satisfies, -⟩ := saturated.maximal 0 Hidden.row ⟨rfl, rfl⟩ absent
      obtain ⟨isTrue, isFalse, -⟩ := List.forall_mem_cons.mp satisfies |>.imp_right
        List.forall_mem_cons.mp
      have negated := Expr.eval_not_of_bool isTrue
      cases negated.symm.trans isFalse
    change last.value[0]? = some true at isSelected
    match last.value, length, isSelected with
    | [_], _, isSelected => exact congrArg (fun entry => [entry]) (Option.some.inj isSelected)

end PredicateTemplate

end TemplateAnalysis
