import TemplateAnalysis.Proofs.Template.Candidates

/-! # Summaries backwards

Backwards, a summary observes the same objects at the same places. Entry and exit trade their parts,
and so do the two ends of every loop transition. A row made for a candidate backwards is therefore a
row made for it forwards with before and after exchanged: it is assumed where that row is checked,
and says before a transition what that row says after it.
-/

namespace TemplateAnalysis

/-- The part that is played when before and after are exchanged. -/
def Role.reversed : Role → Role
  | .input => .output
  | .output => .input
  | .loop => .loop

theorem Role.reversed_inj {a b : Role} : a.reversed = b.reversed ↔ a = b := by
  cases a <;> cases b <;> decide

/-- An observation with before and after exchanged. -/
def Observation.reversed (o : Observation) : Observation where
  object := o.object
  var := o.postVar
  postVar := o.var
  preGuard := o.postGuard
  postGuard := o.preGuard
  role := o.role.reversed

namespace TemplateRow

/-- A row with before and after exchanged. -/
def reversed (row : TemplateRow) : TemplateRow where
  shape :=
    match row.shape with
    | .predicate pre post => .predicate post pre
    | .ranking vars => .ranking (vars.map Prod.swap)
  preGuard := row.postGuard
  postGuard := row.preGuard
  role := row.role.reversed
  tier := row.tier

variable (row : TemplateRow)

@[simp] theorem isAssumed_reversed : row.reversed.isAssumed = row.isChecked := by
  obtain ⟨shape, preGuard, postGuard, role, tier⟩ := row
  cases role <;> rfl

@[simp] theorem isChecked_reversed : row.reversed.isChecked = row.isAssumed := by
  obtain ⟨shape, preGuard, postGuard, role, tier⟩ := row
  cases role <;> rfl

@[simp] theorem statementBefore_reversed :
    PredicateTemplate.statementBefore row.reversed = PredicateTemplate.statementAfter row := by
  obtain ⟨shape, preGuard, postGuard, role, tier⟩ := row
  cases shape <;> rfl

@[simp] theorem statementAfter_reversed :
    PredicateTemplate.statementAfter row.reversed = PredicateTemplate.statementBefore row := by
  obtain ⟨shape, preGuard, postGuard, role, tier⟩ := row
  cases shape <;> rfl

end TemplateRow

namespace PredicateTemplate

theorem RowOver.reversed {P : Symbol → Prop} {row : TemplateRow} (terms : RowOver P row) :
    RowOver P row.reversed := by
  obtain ⟨preGuard, postGuard, pre, post, shape, before, after⟩ := terms
  exact ⟨postGuard, preGuard, post, pre, by rw [TemplateRow.reversed, shape], after, before⟩

theorem sameContext_reversed (a b : Observation) :
    sameContext a.reversed b.reversed = sameContext a b := by
  rw [Bool.eq_iff_iff, sameContext_iff, sameContext_iff]
  exact and_congr Role.reversed_inj and_comm

theorem addToGroup_reversed (o : Observation) (groups : List (List Observation)) :
    addToGroup o.reversed (groups.map (List.map Observation.reversed)) =
      (addToGroup o groups).map (List.map Observation.reversed) := by
  induction groups with
  | nil => rfl
  | cons group rest ih =>
    have same : ((group.map Observation.reversed).head?.any fun first =>
        sameContext first o.reversed) = group.head?.any fun first => sameContext first o := by
      cases group with
      | nil => rfl
      | cons first others => exact sameContext_reversed first o
    rw [List.map_cons, addToGroup, addToGroup, same]
    split
    · simp
    · rw [ih, List.map_cons]

theorem groups_reversed (observations : List Observation) :
    groups (observations.map Observation.reversed) =
      (groups observations).map (List.map Observation.reversed) := by
  have folds : ∀ gathered : List (List Observation),
      (observations.map Observation.reversed).foldl (fun groups o => addToGroup o groups)
        (gathered.map (List.map Observation.reversed)) =
      (observations.foldl (fun groups o => addToGroup o groups) gathered).map
        (List.map Observation.reversed) := by
    induction observations with
    | nil => exact fun _ => rfl
    | cons o rest ih =>
      intro gathered
      rw [List.map_cons, List.foldl_cons, List.foldl_cons, addToGroup_reversed, ih]
  exact folds []

theorem instantiate_reversed (candidate : Expr) (tier : Nat) (group : List Observation) :
    instantiate candidate tier (group.map Observation.reversed) =
      (instantiate candidate tier group).map TemplateRow.reversed := by
  have find : ∀ s : Symbol, (group.map Observation.reversed).find? (fun o => o.object == s) =
      (group.find? fun o => o.object == s).map Observation.reversed :=
    fun s => List.find?_map
  cases group with
  | nil => rfl
  | cons first rest =>
    simp only [List.map_cons] at find
    simp only [instantiate, List.map_cons, find, Option.map_map, Option.isSome_map]
    split
    · rfl
    · rfl

end PredicateTemplate

namespace Frame

theorem observeLoop_false (frame : Frame) (loop : Loop) :
    frame.observeLoop loop false = (frame.observeLoop loop true).map Observation.reversed := by
  rw [observeLoop, observeLoop, List.map_filterMap]
  refine congrArg (List.filterMap · _) (funext fun object => ?_)
  simp only [Option.map_map]
  rfl

theorem observeLoops_false (frame : Frame) :
    frame.observeLoops false = (frame.observeLoops true).map Observation.reversed := by
  rw [observeLoops, observeLoops, List.map_flatMap]
  exact congrArg (List.flatMap · _) (funext frame.observeLoop_false)

end Frame

namespace Ssa

theorem observeSummary_false (ssa : Ssa) :
    ssa.observeSummary false = (ssa.observeSummary true).map Observation.reversed := by
  simp only [observeSummary, Observation.still, List.map_append, List.map_map,
    Frame.observeLoops_false]
  rfl

/-- The row was made for a candidate, in some context of the summary backwards. -/
def MadeBackward (ssa : Ssa) (candidate : Expr) (row : TemplateRow) : Prop :=
  ∃ tier, ∃ group ∈ PredicateTemplate.groups (ssa.observeSummary false),
    PredicateTemplate.instantiate candidate tier group = some row

/-- A row made backwards is a row made forwards with before and after exchanged. -/
theorem MadeBackward.exists_madeFor {ssa : Ssa} {candidate : Expr} {row : TemplateRow}
    (made : ssa.MadeBackward candidate row) :
    ∃ ahead, row = ahead.reversed ∧ ssa.MadeFor candidate ahead := by
  obtain ⟨tier, group, isGroup, made⟩ := made
  rw [observeSummary_false, PredicateTemplate.groups_reversed] at isGroup
  obtain ⟨ahead, isAhead, rfl⟩ := List.mem_map.mp isGroup
  rw [PredicateTemplate.instantiate_reversed] at made
  obtain ⟨row, madeAhead, rfl⟩ := Option.map_eq_some_iff.mp made
  exact ⟨row, rfl, tier, ahead, isAhead, madeAhead⟩

end Ssa

namespace Frame

variable {frame : Frame} {table : SymbolTable}

/-- The guards at a place backwards, before and after a transition. -/
def backwardGuards (frame : Frame) : Place → Expr × Expr
  | .entry => (.var entryGuard, .var entryGuard)
  | .exit => (.var frame.exitGuard, .var frame.exitGuard)
  | .around loop => frame.loopGuards loop false

/-- The row applies backwards at a place. -/
structure IsBackwardAt (frame : Frame) (place : Place) (row : TemplateRow) : Prop where
  role : row.role = place.role.reversed
  preGuard : row.preGuard = (frame.backwardGuards place).1
  postGuard : row.postGuard = (frame.backwardGuards place).2

theorem backwardGuards_eq (place : Place) :
    frame.backwardGuards place = (frame.guards place).swap := by
  cases place <;> rfl

theorem isBackwardAt_reversed {place : Place} {row : TemplateRow} :
    frame.IsBackwardAt place row.reversed ↔ frame.IsAt place row := by
  constructor
  · rintro ⟨role, preGuard, postGuard⟩
    rw [backwardGuards_eq] at preGuard postGuard
    exact ⟨Role.reversed_inj.mp role, postGuard, preGuard⟩
  · rintro ⟨role, preGuard, postGuard⟩
    refine ⟨Role.reversed_inj.mpr role, ?_, ?_⟩
    · rw [backwardGuards_eq]
      exact postGuard
    · rw [backwardGuards_eq]
      exact preGuard

namespace Proper

variable (proper : frame.Proper table) {params : List Symbol}
  (isParam : ∀ param ∈ params, param ∈ frame.objects) {candidate : Expr} {row : TemplateRow}
  (made : (frame.complete params).MadeBackward candidate row)
include proper isParam made

theorem exists_backwardAt : ∃ place, frame.IsPlace place ∧ frame.IsBackwardAt place row := by
  obtain ⟨ahead, rfl, madeAhead⟩ := made.exists_madeFor
  obtain ⟨place, isPlace, isAt, -⟩ := proper.madeFor_cases isParam madeAhead
  exact ⟨place, isPlace, isBackwardAt_reversed.mpr isAt⟩

variable (condition : candidate.isCondition = true) (closed : candidate.hasNondet = false)
include condition closed

/-- A row made backwards for a condition is about symbols of the form. -/
theorem backwardRow_over : PredicateTemplate.RowOver frame.Own row := by
  obtain ⟨ahead, rfl, madeAhead⟩ := made.exists_madeFor
  exact (proper.row_over isParam condition closed madeAhead).reversed

variable {place : Place} (isAt : frame.IsBackwardAt place row) {m store : Assignment}
include isAt

/-- Before a transition, a row made backwards says that its candidate is true in the store that
leaves its place. -/
theorem backward_holds_before
    (values : ∀ object ∈ frame.objects, m (frame.after object place) = store object) :
    m.holds (PredicateTemplate.statementBefore row) =
      (!m.holds (frame.guards place).2 || store.holds candidate) := by
  obtain ⟨ahead, rfl, madeAhead⟩ := made.exists_madeFor
  rw [TemplateRow.statementBefore_reversed]
  exact proper.holds_after isParam condition closed madeAhead (isBackwardAt_reversed.mp isAt) values

/-- After a transition, it says so of the store that arrives there. -/
theorem backward_holds_after
    (values : ∀ object ∈ frame.objects, m (frame.before object place) = store object) :
    m.holds (PredicateTemplate.statementAfter row) =
      (!m.holds (frame.guards place).1 || store.holds candidate) := by
  obtain ⟨ahead, rfl, madeAhead⟩ := made.exists_madeFor
  rw [TemplateRow.statementAfter_reversed]
  exact proper.holds_before isParam condition closed madeAhead (isBackwardAt_reversed.mp isAt)
    values

end Proper

end Frame

end TemplateAnalysis
