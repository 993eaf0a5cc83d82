import TemplateAnalysis.Proofs.Expr.Mentions
import TemplateAnalysis.Proofs.Template.Candidates
import TemplateAnalysis.Proofs.Termination

/-! # Values as formulas over chosen symbols

A projection keeps the rows whose variables are among the chosen symbols, so it follows from the
whole value. Guards apart, what is kept of a predicate template speaks about chosen symbols only: a
row is shown on the side that was looked at. A ranking row is chosen by its variables before a
transition, but it speaks about those after it as well. So its projection stays among the chosen
symbols exactly if these are among them too, for all variables that some component uses.
-/

namespace TemplateAnalysis

/-- The literals that say where control is: guards of locations, branch conditions, and the literals
that choose a back edge. -/
def Symbol.IsControl (s : Symbol) : Prop :=
  ∃ loc, s = (Name.guard loc).bool ∨ s = (Name.cond loc).bool ∨ s = loopSelect loc

/-- Only control literals occur. -/
def Expr.IsControl (e : Expr) : Prop := ∀ s ∈ e.occurrences, s.IsControl

/-- A conjunction of parts that are all answered. -/
theorem Template.exists_conjParts_filterMap {α : Type} {items : List α}
    {part? : α → Option (Except Failure Expr)} {IsPart : Expr → Prop}
    (answered : ∀ a ∈ items, ∀ failure, part? a ≠ some (.error failure))
    (isPart : ∀ e, (∃ a ∈ items, part? a = some (.ok e)) ↔ IsPart e) :
    ∃ es, conjParts (items.filterMap part?) = .ok (Expr.conj es) ∧ ∀ e, e ∈ es ↔ IsPart e := by
  have noError : ∀ failure, .error failure ∉ items.filterMap part? := by
    intro failure member
    obtain ⟨a, isItem, made⟩ := List.mem_filterMap.mp member
    exact answered a isItem failure made
  have allOk : ∀ parts : List (Except Failure Expr), (∀ failure, .error failure ∉ parts) →
      ∃ es : List Expr, es.map .ok = parts := by
    intro parts noError
    induction parts with
    | nil => exact ⟨[], rfl⟩
    | cons part rest ih =>
      obtain ⟨es, rfl⟩ := ih fun failure isRest => noError failure (List.mem_cons_of_mem _ isRest)
      cases part with
      | error failure => exact absurd List.mem_cons_self (noError failure)
      | ok e => exact ⟨e :: es, rfl⟩
  obtain ⟨es, areParts⟩ := allOk _ noError
  rw [← areParts]
  refine ⟨es, conjParts_map_ok es, fun e => ?_⟩
  rw [← isPart, ← List.mem_filterMap, ← areParts]
  simp

/-- In a value of the right length every row has its entry. -/
theorem Template.getElem?_ne_none {α : Type} {value : List α} {rows : List TemplateRow}
    (length : value.length = rows.length) {row : TemplateRow} {i : Nat}
    (member : (row, i) ∈ rows.zipIdx) : value[i]? ≠ none := by
  have inside := (List.getElem?_eq_some_iff.mp (List.mem_zipIdx_iff_getElem?.mp member)).1
  rw [Ne, List.getElem?_eq_none_iff]
  omega

/-- What is over chosen symbols mentions no others. -/
theorem Expr.mem_of_isOver {e : Expr} {symbols : SymbolSet} (chosen : symbols ≠ [])
    (within : e.isOver symbols = true) {s : Symbol} (occurs : s ∈ e.occurrences) : s ∈ symbols := by
  rw [Expr.isOver, Bool.or_eq_true, List.isEmpty_iff] at within
  have inside := List.all_eq_true.mp (within.resolve_left chosen) s (Expr.mem_symbols.mpr occurs)
  simpa using inside

namespace Frame

variable {frame : Frame}

theorem isControl_edgeGuard (loc next : Nat) : (frame.edgeGuard loc next).IsControl := by
  intro s occurs
  cases here : frame.body[loc]? with
  | none =>
    rw [edgeGuard, edgeGuard?, here] at occurs
    cases occurs
  | some instruction =>
    rcases (edgeGuard_term here next).within s occurs with isGuard | isCond
    · exact ⟨loc, .inl isGuard⟩
    · exact ⟨loc, .inr (.inl isCond)⟩

theorem isControl_loopGuards (loop : Loop) (forward : Bool) :
    (frame.loopGuards loop forward).1.IsControl ∧ (frame.loopGuards loop forward).2.IsControl := by
  have arriving : (Expr.and (.var (Name.guard loop.head).bool)
      (.var (loopSelect loop.backEdge))).IsControl := by
    intro s occurs
    rcases Expr.mem_occurrences_and occurs with isGuard | isSelect
    · exact ⟨_, .inl (List.mem_singleton.mp isGuard)⟩
    · exact ⟨_, .inr (.inr (List.mem_singleton.mp isSelect))⟩
  have leaving := frame.isControl_edgeGuard loop.backEdge loop.head
  cases forward with
  | false => exact ⟨leaving, arriving⟩
  | true => exact ⟨arriving, leaving⟩

end Frame

/-- A summary observes under control literals. -/
theorem Ssa.isControl_observed {ssa : Ssa} {forward : Bool} {o : Observation}
    (member : o ∈ ssa.observeSummary forward) : o.preGuard.IsControl ∧ o.postGuard.IsControl := by
  have literal : ∀ loc, (Expr.var (Name.guard loc).bool).IsControl :=
    fun loc s occurs => ⟨loc, .inl (List.mem_singleton.mp occurs)⟩
  rcases List.mem_append.mp member with atEnds | atLoops
  · rcases List.mem_append.mp atEnds with atEntry | atExit
    · obtain ⟨s, -, rfl⟩ := List.mem_map.mp atEntry
      exact ⟨literal _, literal _⟩
    · obtain ⟨s, -, rfl⟩ := List.mem_map.mp atExit
      exact ⟨literal _, literal _⟩
  · obtain ⟨loop, -, atLoop⟩ := List.mem_flatMap.mp atLoops
    obtain ⟨object, -, made⟩ := List.mem_filterMap.mp atLoop
    obtain ⟨leaving, -, rfl⟩ := Option.map_eq_some_iff.mp made
    exact ssa.isControl_loopGuards loop forward

namespace PredicateTemplate

/-- What a row says on the side where it is observed. -/
def shown (row : TemplateRow) : Expr :=
  if row.role == .output then statementAfter row else statementBefore row

variable {template : PredicateTemplate} {value : PredicateValue}

/-- The projection shows the expression: a selected row whose predicate is over the chosen
symbols. -/
def IsShown (template : PredicateTemplate) (value : PredicateValue) (symbols : SymbolSet)
    (e : Expr) : Prop :=
  ∃ (i : Nat) (row : TemplateRow) (pre post : Expr), template.rows[i]? = some row ∧
    value[i]? = some true ∧ row.shape = .predicate pre post ∧
    (if row.role == .output then post else pre).isOver symbols = true ∧ e = shown row

/-- A value of the right length has a projection. -/
theorem exists_project (length : value.length = template.rows.length) (symbols : SymbolSet) :
    ∃ es, template.project value symbols = .ok (Expr.conj es) ∧
      ∀ e, e ∈ es ↔ template.IsShown value symbols e := by
  refine Template.exists_conjParts_filterMap ?_ fun e => ?_
  · rintro ⟨row, i⟩ member failure made
    dsimp only at made
    split at made
    · next missing => exact absurd missing (Template.getElem?_ne_none length member)
    · obtain ⟨-, same⟩ := Option.ite_none_right_eq_some.mp made
      cases same
    · cases made
  · constructor
    · rintro ⟨⟨row, i⟩, member, made⟩
      dsimp only at made
      split at made
      · cases made
      · next pre post held shape =>
        obtain ⟨within, same⟩ := Option.ite_none_right_eq_some.mp made
        cases same
        exact ⟨i, row, pre, post, List.mem_zipIdx_iff_getElem?.mp member, held, shape, within, rfl⟩
      · cases made
    · rintro ⟨i, row, pre, post, isRow, held, shape, within, rfl⟩
      refine ⟨(row, i), List.mem_zipIdx_iff_getElem?.mpr isRow, ?_⟩
      simp only [held, shape]
      rw [if_pos within]
      rfl

/-- A row is shown under one of its guards, on the side where it is observed. -/
theorem mem_occurrences_shown {row : TemplateRow} {pre post : Expr}
    (shape : row.shape = .predicate pre post) {s : Symbol}
    (occurs : s ∈ (shown row).occurrences) :
    (s ∈ row.preGuard.occurrences ∨ s ∈ row.postGuard.occurrences) ∨
      s ∈ (if row.role == .output then post else pre).occurrences := by
  unfold shown at occurs
  split at occurs
  · next after =>
    rw [statementAfter, shape] at occurs
    rw [if_pos after]
    exact (Expr.mem_occurrences_implies occurs).imp_left .inr
  · next before =>
    rw [statementBefore, shape] at occurs
    rw [if_neg before]
    exact (Expr.mem_occurrences_implies occurs).imp_left .inl

/-- The rows for candidates over a summary have control literals for guards. -/
theorem isControl_ofSummary {ssa : Ssa} {number : Nat} {limits : Limits} {candidates : List Expr}
    {forward : Bool} {row : TemplateRow}
    (member : row ∈ (ofSummary number limits candidates (ssa.observeSummary forward)).rows) :
    row.preGuard.IsControl ∧ row.postGuard.IsControl := by
  obtain ⟨candidate, -, member⟩ := List.mem_flatMap.mp member
  obtain ⟨group, isGroup, made⟩ := List.mem_filterMap.mp member
  obtain ⟨first, -, -, leads, -, preGuard, postGuard, -⟩ := instantiate_cases made
  obtain ⟨isObserved, -⟩ := shares_of_mem_groups isGroup first (List.mem_of_mem_head? leads)
  rw [preGuard, postGuard]
  exact Ssa.isControl_observed isObserved

/-- What is shown mentions chosen symbols and those of the guards. -/
theorem IsShown.mem_symbols {symbols : SymbolSet} (chosen : symbols ≠ [])
    (guards : ∀ row ∈ template.rows, row.preGuard.IsControl ∧ row.postGuard.IsControl) {e : Expr}
    (isShown : template.IsShown value symbols e) {s : Symbol} (occurs : s ∈ e.occurrences) :
    s.IsControl ∨ s ∈ symbols := by
  obtain ⟨i, row, pre, post, isRow, -, shape, within, rfl⟩ := isShown
  obtain ⟨preGuard, postGuard⟩ := guards row (List.mem_of_getElem? isRow)
  rcases mem_occurrences_shown shape occurs with (inPre | inPost) | inPredicate
  · exact .inl (preGuard s inPre)
  · exact .inl (postGuard s inPost)
  · exact .inr (Expr.mem_of_isOver chosen within inPredicate)

/-- Without a choice of symbols all selected rows are shown. -/
theorem IsShown.nil {symbols : SymbolSet} {e : Expr} (isShown : template.IsShown value symbols e) :
    template.IsShown value [] e := by
  obtain ⟨i, row, pre, post, isRow, held, shape, -, same⟩ := isShown
  exact ⟨i, row, pre, post, isRow, held, shape, rfl, same⟩

end PredicateTemplate

namespace RankingTemplate

variable {template : RankingTemplate} {value : RankingValue}

/-- The projection shows the expression: a ranked row whose variables before a transition are among
the chosen symbols. -/
def IsShown (template : RankingTemplate) (value : RankingValue) (symbols : SymbolSet)
    (e : Expr) : Prop :=
  ∃ (i : Nat) (row : TemplateRow) (tuple : List (List Int64)), template.rows[i]? = some row ∧
    value[i]? = some (.lexicographic tuple) ∧
    (∀ pair ∈ row.rankingVars, pair.1.isOver symbols = true) ∧
    e = (transition row).implies (lexDecrease row.rankingVars tuple)

/-- A value of the right length has a projection. -/
theorem exists_project (length : value.length = template.rows.length) (symbols : SymbolSet) :
    ∃ es, template.project value symbols = .ok (Expr.conj es) ∧
      ∀ e, e ∈ es ↔ template.IsShown value symbols e := by
  refine Template.exists_conjParts_filterMap ?_ fun e => ?_
  · rintro ⟨row, i⟩ member failure made
    dsimp only at made
    split at made
    · next missing => exact absurd missing (Template.getElem?_ne_none length member)
    · obtain ⟨-, same⟩ := Option.ite_none_right_eq_some.mp made
      cases same
    · cases made
  · constructor
    · rintro ⟨⟨row, i⟩, member, made⟩
      dsimp only at made
      split at made
      · cases made
      · next tuple held =>
        obtain ⟨within, same⟩ := Option.ite_none_right_eq_some.mp made
        cases same
        exact ⟨i, row, tuple, List.mem_zipIdx_iff_getElem?.mp member, held,
          List.all_eq_true.mp within, rfl⟩
      · cases made
    · rintro ⟨i, row, tuple, isRow, held, within, rfl⟩
      refine ⟨(row, i), List.mem_zipIdx_iff_getElem?.mpr isRow, ?_⟩
      simp only [held]
      rw [if_pos (List.all_eq_true.mpr within)]

/-- Without a choice of symbols all ranked rows are shown. -/
theorem IsShown.nil {symbols : SymbolSet} {e : Expr} (isShown : template.IsShown value symbols e) :
    template.IsShown value [] e := by
  obtain ⟨i, row, tuple, isRow, held, -, same⟩ := isShown
  exact ⟨i, row, tuple, isRow, held, fun _ _ => rfl, same⟩

section Components

/-- The component has a coefficient for the variable that is not zero. -/
def Uses (component : List Int64) (observations : List Observation) (o : Observation) : Prop :=
  ∃ c, c ≠ 0 ∧ (c, o) ∈ component.zip observations

variable {component : List Int64} {observations : List Observation} {read : Observation → Symbol}
  {s : Symbol}

theorem mem_occurrences_linear {coefficients : List Int64} {exprs : List Expr} :
    s ∈ (linear coefficients exprs).occurrences ↔
      ∃ term ∈ coefficients.zip exprs, term.1 ≠ 0 ∧ s ∈ term.2.occurrences := by
  have sums : ∀ (terms : List (Int64 × Expr)) (sum : Expr),
      s ∈ (terms.foldl (fun sum term => sum.add (.mul (.int term.1) term.2)) sum).occurrences ↔
        s ∈ sum.occurrences ∨ ∃ term ∈ terms, term.1 ≠ 0 ∧ s ∈ term.2.occurrences := by
    intro terms
    induction terms with
    | nil => simp
    | cons term rest ih =>
      intro sum
      rw [List.foldl_cons, ih, Expr.occurrences_add, Expr.occurrences_mul_int]
      by_cases zero : term.1 = 0 <;> simp [zero, or_assoc]
  exact (sums _ _).trans (by simp [Expr.occurrences])

/-- A linear form mentions the variables with coefficients that are not zero. -/
theorem mem_occurrences_linear_map :
    s ∈ (linear component (observations.map fun o => .var (read o))).occurrences ↔
      ∃ o, Uses component observations o ∧ s = read o := by
  rw [mem_occurrences_linear, List.zip_map_right]
  simp only [List.mem_map, Prod.exists, Uses]
  constructor
  · rintro ⟨c, e, ⟨d, o, member, same⟩, nonzero, occurs⟩
    cases same
    exact ⟨o, ⟨_, nonzero, member⟩, List.mem_singleton.mp occurs⟩
  · rintro ⟨o, ⟨c, nonzero, member⟩, rfl⟩
    exact ⟨c, .var (read o), ⟨c, o, member, rfl⟩, nonzero, List.mem_singleton_self _⟩

/-- A linear form without coefficients other than zero is zero. -/
theorem linear_map_of_unused (unused : ∀ o, ¬ Uses component observations o) :
    linear component (observations.map fun o => .var (read o)) = .int 0 := by
  have zeros : ∀ terms : List (Int64 × Expr),
      (∀ term ∈ terms, Expr.mul (.int term.1) term.2 = .int 0) →
      terms.foldl (fun (sum : Expr) term => sum.add (.mul (.int term.1) term.2)) (.int 0) =
        .int 0 := by
    intro terms
    induction terms with
    | nil => exact fun _ => rfl
    | cons term rest ih =>
      intro zero
      obtain ⟨first, later⟩ := List.forall_mem_cons.mp zero
      rw [List.foldl_cons, first]
      exact ih later
  refine zeros _ fun term member => ?_
  rw [List.zip_map_right] at member
  obtain ⟨⟨c, o⟩, isTerm, rfl⟩ := List.mem_map.mp member
  have zero : c = 0 := by
    by_contra nonzero
    exact unused o ⟨c, nonzero, isTerm⟩
  subst zero
  rfl

/-- The variables of a row, before and after a transition. -/
def pairs (observations : List Observation) : List (Expr × Expr) :=
  observations.map fun o => (.var o.var, .var o.postVar)

theorem before_pairs : before (pairs observations) component =
    linear component (observations.map fun o => .var o.var) := by
  rw [before, pairs, List.map_map]
  rfl

theorem after_pairs : after (pairs observations) component =
    linear component (observations.map fun o => .var o.postVar) := by
  rw [after, pairs, List.map_map]
  rfl

/-- The symbol stands for a variable that the component uses. -/
def Mentions (component : List Int64) (observations : List Observation) (s : Symbol) : Prop :=
  ∃ o, Uses component observations o ∧ (s = o.var ∨ s = o.postVar)

theorem before_or_after :
    s ∈ (before (pairs observations) component).occurrences ∨
      s ∈ (after (pairs observations) component).occurrences ↔
      Mentions component observations s := by
  rw [before_pairs, after_pairs, mem_occurrences_linear_map, mem_occurrences_linear_map,
    ← exists_or]
  simp only [Mentions, and_or_left]

/-- That a component stays equal mentions what it uses. -/
theorem mem_occurrences_level :
    s ∈ ((before (pairs observations) component).equal
      (after (pairs observations) component)).occurrences ↔ Mentions component observations s := by
  rw [Expr.occurrences_equal, List.mem_append, before_or_after]

/-- That a component decreases mentions what it uses. -/
theorem mem_occurrences_decrease :
    s ∈ ((before (pairs observations) component).gt
      (after (pairs observations) component)).occurrences ↔ Mentions component observations s := by
  rw [Expr.occurrences_gt, List.mem_append, before_or_after]

/-- Unless it is idle, a component mentions something. -/
theorem idle_or_mentions (component : List Int64) (observations : List Observation) :
    (before (pairs observations) component = .int 0 ∧
      after (pairs observations) component = .int 0) ∨ ∃ s, Mentions component observations s := by
  by_cases used : ∃ o, Uses component observations o
  · obtain ⟨o, uses⟩ := used
    exact .inr ⟨o.var, o, uses, .inl rfl⟩
  · rw [not_exists] at used
    rw [before_pairs, after_pairs]
    exact .inl ⟨linear_map_of_unused used, linear_map_of_unused used⟩

/-- The component decreases from a value that is not negative, and those before it stay equal. -/
def rankConditions (vars : List (Expr × Expr)) (earlier : List (List Int64))
    (component : List Int64) : List Expr :=
  (earlier.map fun first => (before vars first).equal (after vars first)) ++
    [(before vars component).gt (after vars component), (before vars component).ge (.int 0)]

/-- One way in which a tuple ranks a transition. -/
def rankPart (vars : List (Expr × Expr)) (earlier : List (List Int64)) (component : List Int64) :
    Expr :=
  Expr.conj (rankConditions vars earlier component)

theorem exists_rankParts (vars : List (Expr × Expr)) (tuple : List (List Int64)) :
    ∃ parts, lexDecrease vars tuple = Expr.disj parts ∧ ∀ e, e ∈ parts ↔
      ∃ (j : Nat) (component : List Int64), tuple[j]? = some component ∧
        e = rankPart vars (tuple.take j) component := by
  refine ⟨_, rfl, fun e => ?_⟩
  simp only [List.mem_map, Prod.exists, List.mem_zipIdx_iff_getElem?, rankPart,
    rankConditions, @eq_comm _ e]
  exact exists_comm

variable {earlier : List (List Int64)}

theorem mentions_of_mem_rankPart
    (occurs : s ∈ (rankPart (pairs observations) earlier component).occurrences) :
    ∃ first, (first = component ∨ first ∈ earlier) ∧ Mentions first observations s := by
  obtain ⟨e, member, occurs⟩ := Expr.mem_occurrences_join occurs
  rcases List.mem_append.mp member with isLevel | isLast
  · obtain ⟨first, isEarlier, rfl⟩ := List.mem_map.mp isLevel
    exact ⟨first, .inr isEarlier, mem_occurrences_level.mp occurs⟩
  · rcases List.mem_pair.mp isLast with rfl | rfl
    · exact ⟨component, .inl rfl, mem_occurrences_decrease.mp occurs⟩
    · rw [Expr.occurrences_ge, Expr.occurrences, List.append_nil] at occurs
      exact ⟨component, .inl rfl, before_or_after.mp (.inl occurs)⟩

/-- An idle component does not decrease. Any other mentions what it uses. -/
theorem rankPart_cases (observations : List Observation) (earlier : List (List Int64))
    (component : List Int64) :
    ((∀ s, ¬ Mentions component observations s) ∧
      rankPart (pairs observations) earlier component = .bool false) ∨
    (rankPart (pairs observations) earlier component ≠ .bool true ∧
      ∀ s, Mentions component observations s →
        s ∈ (rankPart (pairs observations) earlier component).occurrences) := by
  rcases idle_or_mentions component observations with ⟨before, after⟩ | ⟨t, mentioned⟩
  · refine .inl ⟨fun s mentions => ?_, ?_⟩
    · have occurs := before_or_after.mpr mentions
      rw [before, after] at occurs
      rcases occurs with none | none <;> cases none
    · rw [rankPart, rankConditions, before, after]
      exact Expr.join_eq_of_mem (List.mem_append_right _ List.mem_cons_self)
  · have undecided : .bool (!Connective.neutral .and) ∉
        rankConditions (pairs observations) earlier component := by
      intro member
      rcases List.mem_append.mp member with isLevel | isLast
      · obtain ⟨first, -, same⟩ := List.mem_map.mp isLevel
        rcases idle_or_mentions first observations with ⟨before, after⟩ | ⟨u, mentions⟩
        · rw [before, after] at same
          cases same
        · exact Expr.ne_bool_of_mem_occurrences (mem_occurrences_level.mpr mentions) _ same
      · rcases List.mem_pair.mp isLast with same | same
        · exact Expr.ne_bool_of_mem_occurrences (mem_occurrences_decrease.mpr mentioned) _ same.symm
        · obtain ⟨o, uses, -⟩ := mentioned
          have occurs : o.var ∈ (before (pairs observations) component).occurrences := by
            rw [before_pairs]
            exact mem_occurrences_linear_map.mpr ⟨o, uses, rfl⟩
          refine Expr.ne_bool_of_mem_occurrences (s := o.var) ?_ _ same.symm
          rw [Expr.occurrences_ge]
          exact List.mem_append_left _ occurs
    have keeps : ∀ s, Mentions component observations s →
        s ∈ (rankPart (pairs observations) earlier component).occurrences := fun s mentions =>
      (Expr.mem_occurrences_join_iff undecided).mpr ⟨_,
        List.mem_append_right _ List.mem_cons_self, mem_occurrences_decrease.mpr mentions⟩
    exact .inr ⟨Expr.ne_bool_of_mem_occurrences (keeps t mentioned) true, keeps⟩

/-- The condition of a tuple mentions the variables that some component uses, before and after a
transition. -/
theorem mem_occurrences_lexDecrease {tuple : List (List Int64)} :
    s ∈ (lexDecrease (pairs observations) tuple).occurrences ↔
      ∃ component ∈ tuple, Mentions component observations s := by
  obtain ⟨parts, same, isPart⟩ := exists_rankParts (pairs observations) tuple
  rw [same]
  constructor
  · intro occurs
    obtain ⟨e, member, occurs⟩ := Expr.mem_occurrences_join occurs
    obtain ⟨j, component, here, rfl⟩ := (isPart e).mp member
    obtain ⟨first, rfl | isEarlier, mentions⟩ := mentions_of_mem_rankPart occurs
    · exact ⟨first, List.mem_of_getElem? here, mentions⟩
    · exact ⟨first, List.mem_of_mem_take isEarlier, mentions⟩
  · rintro ⟨component, member, mentions⟩
    obtain ⟨j, here⟩ := List.getElem?_of_mem member
    have undecided : .bool (!Connective.neutral .or) ∉ parts := by
      intro member
      obtain ⟨k, other, -, isTrue⟩ := (isPart _).mp member
      rcases rankPart_cases observations (tuple.take k) other with ⟨-, isFalse⟩ | ⟨notTrue, -⟩
      · rw [isFalse] at isTrue
        cases isTrue
      · exact notTrue isTrue.symm
    rcases rankPart_cases observations (tuple.take j) component with ⟨idle, -⟩ | ⟨-, keeps⟩
    · exact absurd mentions (idle s)
    · exact (Expr.mem_occurrences_join_iff undecided).mpr
        ⟨_, (isPart _).mpr ⟨j, component, here, rfl⟩, keeps s mentions⟩

end Components

end RankingTemplate

namespace Frame

open RankingTemplate

variable {frame : Frame} {loop : Loop} {s : Symbol}

/-- The transition of a row is out of the question only if the guard of its back edge is. -/
theorem transition_cases (frame : Frame) (loop : Loop) :
    (frame.edgeGuard loop.backEdge loop.head = .bool false ∧
      transition (frame.rankingRow loop) = .bool false) ∨
    (frame.edgeGuard loop.backEdge loop.head ≠ .bool false ∧
      ∃ es, transition (frame.rankingRow loop) = .junction .and es) := by
  change _ ∧ Expr.join .and [_, frame.edgeGuard loop.backEdge loop.head] = _ ∨
    _ ∧ ∃ es, Expr.join .and [.junction .and [_, _], frame.edgeGuard loop.backEdge loop.head] = _
  generalize frame.edgeGuard loop.backEdge loop.head = leaving
  by_cases isFalse : leaving = .bool false
  · refine .inl ⟨isFalse, Expr.join_eq_of_mem ?_⟩
    rw [isFalse]
    exact List.mem_cons_of_mem _ List.mem_cons_self
  · refine .inr ⟨isFalse, ?_⟩
    cases reduced : Expr.operands? .and [leaving] with
    | none =>
      have isLeaving := Expr.mem_of_operands?_eq_none reduced
      exact absurd (List.mem_singleton.mp isLeaving).symm isFalse
    | some rest =>
      rw [Expr.join, Expr.operands?, if_pos rfl, reduced]
      exact ⟨_, rfl⟩

theorem isControl_transition (frame : Frame) (loop : Loop) :
    (transition (frame.rankingRow loop)).IsControl := by
  intro s occurs
  obtain ⟨arriving, leaving⟩ := frame.isControl_loopGuards loop true
  rcases Expr.mem_occurrences_and occurs with isArriving | isLeaving
  · exact arriving s isArriving
  · exact leaving s isLeaving

/-- What is shown of a row is not `false`. -/
theorem shown_ne_false (frame : Frame) (loop : Loop) (decrease : Expr) :
    (transition (frame.rankingRow loop)).implies decrease ≠ .bool false := by
  rcases frame.transition_cases loop with ⟨-, isFalse⟩ | ⟨-, es, isJunction⟩
  · rw [isFalse]
    intro same
    cases same
  · rw [isJunction]
    intro same
    cases decrease with
    | bool t => cases t <;> cases same
    | _ => cases same

/-- Control literals apart, what is shown of a row mentions the variables that its tuple uses. -/
theorem mem_occurrences_shown (other : ¬ s.IsControl) {tuple : List (List Int64)} :
    s ∈ ((transition (frame.rankingRow loop)).implies
      (lexDecrease (frame.rankingRow loop).rankingVars tuple)).occurrences ↔
      frame.edgeGuard loop.backEdge loop.head ≠ .bool false ∧
        ∃ component ∈ tuple, Mentions component (frame.rankable loop) s := by
  change s ∈ Expr.occurrences (Expr.implies _ (lexDecrease (pairs (frame.rankable loop)) tuple)) ↔ _
  rw [← mem_occurrences_lexDecrease]
  constructor
  · intro occurs
    rcases Expr.mem_occurrences_implies occurs with isGuard | isRank
    · exact absurd (frame.isControl_transition loop s isGuard) other
    · refine ⟨?_, isRank⟩
      rcases frame.transition_cases loop with ⟨-, isFalse⟩ | ⟨possible, -⟩
      · rw [isFalse] at occurs
        cases occurs
      · exact possible
  · rintro ⟨possible, isRank⟩
    refine Expr.mem_occurrences_implies_right ?_ isRank
    rcases frame.transition_cases loop with ⟨isFalse, -⟩ | ⟨-, es, isJunction⟩
    · exact absurd isFalse possible
    · rw [isJunction]
      intro same
      cases same

/-- A ranked row with all variables before a transition among the chosen symbols uses the variable
that is observed, and the guard of its back edge is not `false`. -/
def Involves (frame : Frame) (ranks : RankingValue) (symbols : SymbolSet) (o : Observation) :
    Prop :=
  ∃ (i : Nat) (loop : Loop) (tuple : List (List Int64)), frame.flow.loops[i]? = some loop ∧
    ranks[i]? = some (.lexicographic tuple) ∧
    (∀ other ∈ frame.rankable loop, other.var ∈ symbols) ∧
    frame.edgeGuard loop.backEdge loop.head ≠ .bool false ∧
    ∃ component ∈ tuple, Uses component (frame.rankable loop) o

theorem Involves.var_mem {ranks : RankingValue} {symbols : SymbolSet} {o : Observation}
    (involved : frame.Involves ranks symbols o) : o.var ∈ symbols := by
  obtain ⟨i, loop, tuple, -, -, within, -, component, -, c, -, member⟩ := involved
  exact within o (List.of_mem_zip member).2

theorem Involves.mem_observeRanking {ranks : RankingValue} {symbols : SymbolSet} {o : Observation}
    (involved : frame.Involves ranks symbols o) : o ∈ frame.observeRanking := by
  obtain ⟨i, loop, tuple, isLoop, -, -, -, component, -, c, -, member⟩ := involved
  exact List.mem_flatMap.mpr ⟨loop, List.mem_of_getElem? isLoop, (List.of_mem_zip member).2⟩

section Projection

variable {number : Nat} {limits : Limits} {ranks : RankingValue} {symbols : SymbolSet}
  (chosen : symbols ≠ [])
include chosen

/-- The projection shows the rows of loops whose variables before a transition are all chosen. -/
theorem isShown_iff {e : Expr} :
    (ofRows number limits frame.rankingRows).IsShown ranks symbols e ↔
      ∃ (i : Nat) (loop : Loop) (tuple : List (List Int64)), frame.flow.loops[i]? = some loop ∧
        ranks[i]? = some (.lexicographic tuple) ∧
        (∀ o ∈ frame.rankable loop, o.var ∈ symbols) ∧
        e = (transition (frame.rankingRow loop)).implies
          (lexDecrease (frame.rankingRow loop).rankingVars tuple) := by
  have within : ∀ loop, (∀ pair ∈ (frame.rankingRow loop).rankingVars,
      pair.1.isOver symbols = true) ↔ ∀ o ∈ frame.rankable loop, o.var ∈ symbols := by
    intro loop
    change (∀ pair ∈ pairs (frame.rankable loop), _) ↔ _
    rw [pairs, List.forall_mem_map]
    refine forall₂_congr fun o _ => ⟨fun isOver => ?_, fun member => ?_⟩
    · exact Expr.mem_of_isOver chosen isOver (List.mem_singleton_self _)
    · simp [Expr.isOver, SymbolSet.subset, Expr.mem_symbols, Expr.occurrences, member]
  have isRow : ∀ (i : Nat) (row : TemplateRow),
      (ofRows number limits frame.rankingRows).rows[i]? = some row ↔
        ∃ loop, frame.flow.loops[i]? = some loop ∧ frame.rankingRow loop = row := by
    intro i row
    change (frame.flow.loops.map frame.rankingRow)[i]? = some row ↔ _
    rw [List.getElem?_map, Option.map_eq_some_iff]
  constructor
  · rintro ⟨i, row, tuple, here, held, isOver, rfl⟩
    obtain ⟨loop, isLoop, rfl⟩ := (isRow i row).mp here
    exact ⟨i, loop, tuple, isLoop, held, (within loop).mp isOver, rfl⟩
  · rintro ⟨i, loop, tuple, isLoop, held, isOver, rfl⟩
    exact ⟨i, _, tuple, (isRow i _).mpr ⟨loop, isLoop, rfl⟩, held, (within loop).mpr isOver, rfl⟩

/-- Control literals apart, the projection of a ranking template mentions the variables that are
involved, before and after a transition. -/
theorem mem_symbols_project {es : List Expr}
    (isPart : ∀ e, e ∈ es ↔ (ofRows number limits frame.rankingRows).IsShown ranks symbols e)
    (other : ¬ s.IsControl) : s ∈ (Expr.conj es).symbols ↔
      ∃ o, frame.Involves ranks symbols o ∧ (s = o.var ∨ s = o.postVar) := by
  have undecided : .bool (!Connective.neutral .and) ∉ es := by
    intro member
    obtain ⟨i, loop, tuple, -, -, -, isFalse⟩ := (isShown_iff chosen).mp ((isPart _).mp member)
    exact frame.shown_ne_false loop _ isFalse.symm
  rw [Expr.mem_symbols, Expr.conj, Expr.mem_occurrences_join_iff undecided]
  constructor
  · rintro ⟨e, member, occurs⟩
    obtain ⟨i, loop, tuple, isLoop, held, within, rfl⟩ :=
      (isShown_iff chosen).mp ((isPart e).mp member)
    obtain ⟨possible, component, isComponent, o, uses, same⟩ :=
      (mem_occurrences_shown other).mp occurs
    exact ⟨o, ⟨i, loop, tuple, isLoop, held, within, possible, component, isComponent, uses⟩, same⟩
  · rintro ⟨o, ⟨i, loop, tuple, isLoop, held, within, possible, component, isComponent, uses⟩, same⟩
    have isShown := (isPart _).mpr ((isShown_iff chosen).mpr
      ⟨i, loop, tuple, isLoop, held, within, rfl⟩)
    exact ⟨_, isShown,
      (mem_occurrences_shown other).mpr ⟨possible, component, isComponent, o, uses, same⟩⟩

end Projection

end Frame

open PredicateTemplate RankingTemplate in
/-- A projection onto chosen symbols follows from the projection onto all. Control literals apart,
that of a predicate template over a summary mentions chosen symbols only; that of a ranking template
does so exactly if the chosen symbols include what stands after a transition for every variable that
is involved. -/
theorem Ssa.project_over_symbols (ssa : Ssa) (number : Nat) (limits : Limits)
    (candidates : List Expr) (forward : Bool) {selected : PredicateValue} {ranks : RankingValue}
    (selects : selected.length =
      (ofSummary number limits candidates (ssa.observeSummary forward)).rows.length)
    (ranked : ranks.length = ssa.rankingRows.length) {symbols : SymbolSet}
    (chosen : symbols ≠ []) :
    (∃ whole part,
      (ofSummary number limits candidates (ssa.observeSummary forward)).project selected [] =
        .ok whole ∧
      (ofSummary number limits candidates (ssa.observeSummary forward)).project selected symbols =
        .ok part ∧
      (∀ s ∈ part.symbols, s.IsControl ∨ s ∈ symbols) ∧
      ∀ m : Assignment, whole.eval m.valuation = some (.bool true) →
        part.eval m.valuation = some (.bool true)) ∧
    ∃ whole part,
      (ofRows number limits ssa.rankingRows).project ranks [] = .ok whole ∧
      (ofRows number limits ssa.rankingRows).project ranks symbols = .ok part ∧
      ((∀ s ∈ part.symbols, s.IsControl ∨ s ∈ symbols) ↔
        ∀ o, ssa.Involves ranks symbols o → o.postVar.IsControl ∨ o.postVar ∈ symbols) ∧
      ∀ m : Assignment, whole.eval m.valuation = some (.bool true) →
        part.eval m.valuation = some (.bool true) := by
  constructor
  · obtain ⟨all, answeredAll, isAll⟩ := PredicateTemplate.exists_project selects []
    obtain ⟨es, answered, isPart⟩ := PredicateTemplate.exists_project selects symbols
    refine ⟨_, _, answeredAll, answered, fun s mentioned => ?_, fun m isTrue => ?_⟩
    · obtain ⟨e, member, occurs⟩ := Expr.mem_occurrences_join (Expr.mem_symbols.mp mentioned)
      exact ((isPart e).mp member).mem_symbols chosen (fun _ => isControl_ofSummary) occurs
    · rw [Expr.eval_conj_iff] at isTrue ⊢
      exact fun e member => isTrue e ((isAll e).mpr ((isPart e).mp member).nil)
  · have length : ranks.length = (ofRows number limits ssa.rankingRows).rows.length := ranked
    obtain ⟨all, answeredAll, isAll⟩ := RankingTemplate.exists_project length []
    obtain ⟨es, answered, isPart⟩ := RankingTemplate.exists_project length symbols
    refine ⟨_, _, answeredAll, answered, ⟨fun keeps o involved => ?_, fun keeps s mentioned => ?_⟩,
      fun m isTrue => ?_⟩
    · by_cases control : o.postVar.IsControl
      · exact .inl control
      · exact keeps _
          ((Frame.mem_symbols_project chosen isPart control).mpr ⟨o, involved, .inr rfl⟩)
    · by_cases control : s.IsControl
      · exact .inl control
      · obtain ⟨o, involved, rfl | rfl⟩ :=
          (Frame.mem_symbols_project chosen isPart control).mp mentioned
        · exact .inr involved.var_mem
        · exact keeps o involved
    · rw [Expr.eval_conj_iff] at isTrue ⊢
      exact fun e member => isTrue e ((isAll e).mpr ((isPart e).mp member).nil)

/-- Over the number before and after a pass of the countdown, both projections keep to them. -/
theorem Ssa.project_over_symbols_countdown : ∃ ssa,
    Ssa.build "countdown" countdown Countdown.table = .ok ssa ∧
    (∃ part, (PredicateTemplate.ofSummary 0 {} [.cmp .ge (.var ⟨"x", .int⟩) (.int 0)]
        (ssa.observeSummary true)).project [true, true, true]
          [(Name.loopBack "x" 2).int, (Name.version "x" 1).int] = .ok part ∧
      ∀ s ∈ part.symbols, s.IsControl ∨
        s ∈ [(Name.loopBack "x" 2).int, (Name.version "x" 1).int]) ∧
    ∃ part, (RankingTemplate.ofRows 0 {} ssa.rankingRows).project [.lexicographic [[1]]]
        [(Name.loopBack "x" 2).int, (Name.version "x" 1).int] = .ok part ∧
      ∀ s ∈ part.symbols, s.IsControl ∨
        s ∈ [(Name.loopBack "x" 2).int, (Name.version "x" 1).int] := by
  obtain ⟨ssa, built, selects, ranked, observed⟩ : ∃ ssa,
      Ssa.build "countdown" countdown Countdown.table = .ok ssa ∧
      [true, true, true].length = (PredicateTemplate.ofSummary 0 {}
        [.cmp .ge (.var ⟨"x", .int⟩) (.int 0)] (ssa.observeSummary true)).rows.length ∧
      [Rank.lexicographic [[1]]].length = ssa.rankingRows.length ∧
      ssa.observeRanking.map (·.postVar) = [(Name.version "x" 1).int] := ⟨_, rfl, rfl, rfl, rfl⟩
  obtain ⟨⟨-, part, -, answered, keeps, -⟩, -, rankPart, -, rankAnswered, keepsIff, -⟩ :=
    ssa.project_over_symbols 0 {} _ true selects ranked
      (List.cons_ne_nil (Name.loopBack "x" 2).int [(Name.version "x" 1).int])
  refine ⟨ssa, built, ⟨part, answered, keeps⟩, rankPart, rankAnswered, keepsIff.mpr ?_⟩
  intro o involved
  have isAfter := List.mem_map_of_mem (f := (·.postVar)) involved.mem_observeRanking
  rw [observed, List.mem_singleton] at isAfter
  rw [isAfter]
  exact .inr (List.mem_cons_of_mem _ (List.mem_singleton_self _))

/-- Over the number before a pass of the countdown alone, the ranking projection mentions the one
after it too. -/
theorem Ssa.project_beyond_symbols_countdown : ∃ ssa part,
    Ssa.build "countdown" countdown Countdown.table = .ok ssa ∧
    (RankingTemplate.ofRows 0 {} ssa.rankingRows).project [.lexicographic [[1]]]
      [(Name.loopBack "x" 2).int] = .ok part ∧
    (Name.version "x" 1).int ∈ part.symbols ∧ ¬ (Name.version "x" 1).int.IsControl ∧
    (Name.version "x" 1).int ∉ [(Name.loopBack "x" 2).int] := by
  refine ⟨_, _, rfl, rfl, by decide, ?_, by decide⟩
  rintro ⟨loc, same | same | same⟩ <;> cases congrArg Symbol.sort same

end TemplateAnalysis
