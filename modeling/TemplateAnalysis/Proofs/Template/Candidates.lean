import TemplateAnalysis.Proofs.Ssa.Exactness
import TemplateAnalysis.Proofs.Template.Selection

/-! # Candidates over the objects of a procedure

A summary observes the objects of a procedure at three kinds of places: on entry, on exit, and
around each loop. The observations of one place share their context, and no two places do. So a row
made for a candidate belongs to one place, and reads the candidate over the symbols that stand for
its objects there, before and after a transition.
-/

namespace TemplateAnalysis

/-- Where a summary observes the objects of a procedure. -/
inductive Place where
  | entry
  | exit
  | around (loop : Loop)

/-- The part that the objects play at a place. -/
def Place.role : Place → Role
  | .entry => .input
  | .exit => .output
  | .around _ => .loop

namespace PredicateTemplate

theorem sameContext_iff {a b : Observation} : sameContext a b = true ↔
    a.role = b.role ∧ a.preGuard = b.preGuard ∧ a.postGuard = b.postGuard := by
  simp [sameContext, and_assoc]

/-- Observations among the given ones, all made in the context of the first. -/
def Shares (observations group : List Observation) : Prop :=
  ∀ o ∈ group, o ∈ observations ∧ ∀ first, group.head? = some first → sameContext first o = true

theorem shares_addToGroup {observations : List Observation} {o : Observation}
    (isObserved : o ∈ observations) {groups : List (List Observation)}
    (share : ∀ group ∈ groups, Shares observations group) :
    ∀ group ∈ addToGroup o groups, Shares observations group := by
  induction groups with
  | nil =>
    intro group isGroup other member
    obtain rfl := List.mem_singleton.mp isGroup
    obtain rfl := List.mem_singleton.mp member
    refine ⟨isObserved, fun first isFirst => ?_⟩
    cases isFirst
    exact sameContext_iff.mpr ⟨rfl, rfl, rfl⟩
  | cons first rest ih =>
    have tail : ∀ group ∈ rest, Shares observations group := fun group isGroup =>
      share group (List.mem_cons_of_mem _ isGroup)
    unfold addToGroup
    split
    · next belongs =>
      intro group isGroup
      rcases List.mem_cons.mp isGroup with rfl | isRest
      · obtain ⟨leader, others, rfl⟩ : ∃ leader others, first = leader :: others := by
          cases first with
          | nil => cases belongs
          | cons leader others => exact ⟨leader, others, rfl⟩
        intro other member
        rcases List.mem_append.mp member with old | new
        · exact share _ List.mem_cons_self other old
        · obtain rfl := List.mem_singleton.mp new
          refine ⟨isObserved, fun first isFirst => ?_⟩
          cases isFirst
          exact belongs
      · exact tail group isRest
    · intro group isGroup
      rcases List.mem_cons.mp isGroup with rfl | isRest
      · exact share _ List.mem_cons_self
      · exact ih tail group isRest

theorem shares_of_mem_groups {observations group : List Observation}
    (isGroup : group ∈ groups observations) : Shares observations group := by
  have collects : ∀ (rest : List Observation) (gathered : List (List Observation)),
      (∀ o ∈ rest, o ∈ observations) → (∀ group ∈ gathered, Shares observations group) →
      ∀ group ∈ rest.foldl (fun groups o => addToGroup o groups) gathered,
        Shares observations group := by
    intro rest
    induction rest with
    | nil => exact fun _ _ share => share
    | cons o rest ih =>
      intro gathered observed share
      exact ih _ (fun other member => observed other (List.mem_cons_of_mem _ member))
        (shares_addToGroup (observed o List.mem_cons_self) share)
  exact collects observations [] (fun _ member => member) (fun _ none => absurd none
    List.not_mem_nil) group isGroup

/-- A row reads the candidate over what a group observes of its objects. -/
theorem instantiate_cases {candidate : Expr} {tier : Nat} {group : List Observation}
    {row : TemplateRow} (made : instantiate candidate tier group = some row) :
    ∃ first before after, group.head? = some first ∧
      row.shape = .predicate (candidate.rename before) (candidate.rename after) ∧
      row.preGuard = first.preGuard ∧ row.postGuard = first.postGuard ∧ row.role = first.role ∧
      ∀ s ∈ candidate.occurrences, ∃ o ∈ group, o.object = s ∧ before s = some o.var ∧
        after s = some o.postVar := by
  cases group with
  | nil => cases made
  | cons first rest =>
    simp only [instantiate] at made
    split at made
    · next observed =>
      cases made
      refine ⟨first, _, _, rfl, rfl, rfl, rfl, rfl, fun s occurs => ?_⟩
      have isObserved := List.all_eq_true.mp observed s (Expr.mem_symbols.mpr occurs)
      obtain ⟨o, found⟩ := Option.isSome_iff_exists.mp isObserved
      refine ⟨o, List.mem_of_find?_eq_some found, ?_, ?_, ?_⟩
      · simpa using List.find?_some found
      · rw [found, Option.map_some]
      · rw [found, Option.map_some]
    · cases made

end PredicateTemplate

/-- The row was made for a candidate, in some context of the summary. -/
def Ssa.MadeFor (ssa : Ssa) (candidate : Expr) (row : TemplateRow) : Prop :=
  ∃ tier, ∃ group ∈ PredicateTemplate.groups (ssa.observeSummary true),
    PredicateTemplate.instantiate candidate tier group = some row

namespace Frame

variable {frame : Frame} {table : SymbolTable}

/-- The guards at a place, before and after a transition. -/
def guards (frame : Frame) : Place → Expr × Expr
  | .entry => (.var entryGuard, .var entryGuard)
  | .exit => (.var frame.exitGuard, .var frame.exitGuard)
  | .around loop => frame.loopGuards loop true

/-- What stands for an object at a place before a transition. -/
def before (frame : Frame) (object : Symbol) : Place → Symbol
  | .entry => Definition.input.version object
  | .exit => (frame.definitionBefore (frame.body.length - 1) object).version object
  | .around loop => loopBack object loop.backEdge

/-- What stands for an object at a place after a transition. -/
def after (frame : Frame) (object : Symbol) : Place → Symbol
  | .entry => Definition.input.version object
  | .exit => (frame.definitionBefore (frame.body.length - 1) object).version object
  | .around loop => (frame.definitionAfter loop.backEdge object).version object

/-- The observation of an object at a place. -/
def observe (frame : Frame) (place : Place) (object : Symbol) : Observation where
  object
  var := frame.before object place
  postVar := frame.after object place
  preGuard := (frame.guards place).1
  postGuard := (frame.guards place).2
  role := place.role

/-- A loop around which something is observed is closed by a back edge. -/
def IsPlace (frame : Frame) : Place → Prop
  | .around loop => loop.backEdge ∈ frame.flow.backEdges loop.head
  | _ => True

/-- The row applies at a place. -/
structure IsAt (frame : Frame) (place : Place) (row : TemplateRow) : Prop where
  role : row.role = place.role
  preGuard : row.preGuard = (frame.guards place).1
  postGuard : row.postGuard = (frame.guards place).2

/-- No two places have the same guards and play the same part. -/
theorem place_eq {place other : Place} (role : place.role = other.role)
    (same : frame.guards place = frame.guards other) : place = other := by
  cases place with
  | entry => cases other <;> first | rfl | cases role
  | exit => cases other <;> first | rfl | cases role
  | around loop =>
    cases other with
    | entry => cases role
    | exit => cases role
    | around closing =>
      obtain ⟨arriving, -⟩ := Prod.mk.inj same
      change Expr.junction .and
          [.var (Name.guard loop.head).bool, .var (loopSelect loop.backEdge)] = .junction .and
          [.var (Name.guard closing.head).bool, .var (loopSelect closing.backEdge)] at arriving
      simp only [Expr.junction.injEq, List.cons.injEq, Expr.var.injEq, true_and, and_true]
        at arriving
      obtain ⟨head, -⟩ := Name.eq_of_symbol_eq (Name.isProper_of_none rfl)
        (Name.isProper_of_none rfl) arriving.1
      obtain ⟨backEdge, -⟩ := Name.eq_of_symbol_eq (Name.isProper_of_none rfl)
        (Name.isProper_of_none rfl) arriving.2
      cases loop
      cases closing
      cases head
      cases backEdge
      rfl

/-- A row applies at one place only. -/
theorem IsAt.unique {place other : Place} {row : TemplateRow} (first : frame.IsAt place row)
    (second : frame.IsAt other row) : place = other :=
  place_eq (first.role.symm.trans second.role)
    (Prod.ext (first.preGuard.symm.trans second.preGuard)
      (first.postGuard.symm.trans second.postGuard))

namespace Proper

variable (proper : frame.Proper table)
include proper

private theorem version_object {object : Symbol} (isObject : object ∈ frame.objects)
    (d : Definition) :
    (⟨(d.version object).object, (d.version object).sort⟩ : Symbol) = object := by
  rw [proper.object_version isObject, Definition.sort_version]

/-- A summary observes objects, each at some place. -/
theorem observed_of_mem {params : List Symbol} (isParam : ∀ param ∈ params, param ∈ frame.objects)
    {o : Observation} (member : o ∈ (frame.complete params).observeSummary true) :
    ∃ place, frame.IsPlace place ∧ ∃ object ∈ frame.objects, o = frame.observe place object := by
  rcases List.mem_append.mp member with atEnds | atLoops
  · rcases List.mem_append.mp atEnds with atEntry | atExit
    · obtain ⟨s, isInput, rfl⟩ := List.mem_map.mp atEntry
      obtain ⟨object, isObject, rfl⟩ :
          ∃ object ∈ frame.objects, Definition.input.version object = s := by
        rcases List.mem_append.mp isInput with isParameter | isGlobal
        · obtain ⟨param, isListed, rfl⟩ := List.mem_map.mp isParameter
          exact ⟨param, isParam param isListed, rfl⟩
        · have isVersion := (List.mem_filter.mp (SymbolSet.mem_ofList.mp isGlobal)).1
          obtain ⟨object, isStatic, rfl⟩ := List.mem_map.mp isVersion
          rw [proper.globals_eq] at isStatic
          exact ⟨object, (List.mem_filter.mp isStatic).1, rfl⟩
      refine ⟨.entry, trivial, object, isObject, ?_⟩
      rw [proper.version_object isObject]
      rfl
    · obtain ⟨version, isOut, rfl⟩ := List.mem_map.mp atExit
      obtain ⟨object, isObject, -, rfl⟩ := proper.mem_outgoing.mp isOut
      refine ⟨.exit, trivial, object, isObject, ?_⟩
      rw [proper.version_object isObject]
      rfl
  · obtain ⟨loop, isLoop, atLoop⟩ := List.mem_flatMap.mp atLoops
    have isBack := Flow.mem_loops.mp isLoop
    obtain ⟨object, isMerged, rfl⟩ := (proper.mem_observeLoop isBack).mp atLoop
    have inside := proper.back_edge_inside isBack
    exact ⟨.around loop, isBack, object, ((proper.mem_mergedObjects (by omega)).mp isMerged).1, rfl⟩

/-- A row made for a candidate reads it at one place. -/
theorem madeFor_cases {params : List Symbol} (isParam : ∀ param ∈ params, param ∈ frame.objects)
    {candidate : Expr} {row : TemplateRow} (made : (frame.complete params).MadeFor candidate row) :
    ∃ place, frame.IsPlace place ∧ frame.IsAt place row ∧ ∃ before after,
      row.shape = .predicate (candidate.rename before) (candidate.rename after) ∧
      ∀ s ∈ candidate.occurrences, s ∈ frame.objects ∧ before s = some (frame.before s place) ∧
        after s = some (frame.after s place) := by
  obtain ⟨tier, group, isGroup, made⟩ := made
  have shares := PredicateTemplate.shares_of_mem_groups isGroup
  obtain ⟨first, before, after, leads, shape, preGuard, postGuard, role, reads⟩ :=
    PredicateTemplate.instantiate_cases made
  obtain ⟨isObserved, -⟩ := shares first (List.mem_of_mem_head? leads)
  obtain ⟨place, isPlace, object, -, rfl⟩ := proper.observed_of_mem isParam isObserved
  refine ⟨place, isPlace, ⟨role, preGuard, postGuard⟩, before, after, shape, ?_⟩
  intro s occurs
  obtain ⟨o, isMember, rfl, isBefore, isAfter⟩ := reads s occurs
  obtain ⟨isObserved, context⟩ := shares o isMember
  obtain ⟨other, -, object, isObject, rfl⟩ := proper.observed_of_mem isParam isObserved
  obtain ⟨role, preGuard, postGuard⟩ := PredicateTemplate.sameContext_iff.mp (context _ leads)
  obtain rfl := place_eq role (Prod.ext preGuard postGuard)
  exact ⟨isObject, isBefore, isAfter⟩

/-- At a place, an object is read through symbols of the form, of its own sort. -/
theorem own_before {place : Place} (isPlace : frame.IsPlace place) {object : Symbol}
    (isObject : object ∈ frame.objects) :
    (frame.before object place).sort = object.sort ∧ frame.Own (frame.before object place) := by
  cases place with
  | entry =>
    have own : frame.Own (Definition.input.version object) :=
      proper.own_version isObject (Nat.zero_le _)
    exact ⟨Definition.sort_version .., own⟩
  | exit =>
    have inside : frame.body.length - 1 < frame.body.length := by
      have pos := proper.accepted.length_pos
      omega
    have rank := proper.rank_definitionBefore inside isObject
    exact ⟨Definition.sort_version .., proper.own_version isObject (by omega)⟩
  | around loop => exact ⟨rfl, proper.own_loopBack isPlace isObject⟩

theorem own_after {place : Place} (isPlace : frame.IsPlace place) {object : Symbol}
    (isObject : object ∈ frame.objects) :
    (frame.after object place).sort = object.sort ∧ frame.Own (frame.after object place) := by
  cases place with
  | entry => exact proper.own_before isPlace isObject
  | exit => exact proper.own_before isPlace isObject
  | around loop =>
    have inside := (proper.back_edge_inside isPlace).2
    have rank := proper.rank_definitionAfter inside isObject
    exact ⟨Definition.sort_version .., proper.own_version isObject (by omega)⟩

theorem guards_term {place : Place} (isPlace : frame.IsPlace place) :
    (frame.guards place).1.TermOver frame.Own .bool ∧
      (frame.guards place).2.TermOver frame.Own .bool := by
  have inside := proper.accepted.length_pos
  cases place with
  | entry => exact ⟨own_guard inside, own_guard inside⟩
  | exit => exact ⟨own_guard (by omega), own_guard (by omega)⟩
  | around loop => exact ⟨proper.arriving_term isPlace, proper.leaving_term isPlace⟩

section Meaning

variable {params : List Symbol} (isParam : ∀ param ∈ params, param ∈ frame.objects)
  {candidate : Expr} (condition : candidate.isCondition = true)
  (closed : candidate.hasNondet = false) {row : TemplateRow}
  (made : (frame.complete params).MadeFor candidate row)
include isParam condition closed made

/-- A row made for a condition is about symbols of the form. -/
theorem row_over : PredicateTemplate.RowOver frame.Own row := by
  obtain ⟨place, isPlace, isAt, before, after, shape, reads⟩ := proper.madeFor_cases isParam made
  obtain ⟨sorted, sort⟩ := Expr.isCondition_iff.mp condition
  obtain ⟨preGuard, postGuard⟩ := proper.guards_term isPlace
  refine ⟨isAt.preGuard ▸ preGuard, isAt.postGuard ▸ postGuard, _, _, shape,
    sort ▸ .rename sorted closed fun s occurs => ?_,
    sort ▸ .rename sorted closed fun s occurs => ?_⟩
  · obtain ⟨isObject, isBefore, -⟩ := reads s occurs
    rw [Expr.imageUnder, isBefore]
    exact proper.own_before isPlace isObject
  · obtain ⟨isObject, -, isAfter⟩ := reads s occurs
    rw [Expr.imageUnder, isAfter]
    exact proper.own_after isPlace isObject

omit proper isParam condition closed made in
private theorem eval_read {r : Symbol → Option Symbol} {f : Symbol → Symbol} {m store : Assignment}
    (reads : ∀ s ∈ candidate.occurrences, s ∈ frame.objects ∧ r s = some (f s))
    (values : ∀ object ∈ frame.objects, m (f object) = store object) :
    (candidate.rename r).eval m.valuation = candidate.eval store.valuation := by
  refine (Expr.eval_rename candidate).trans (Expr.eval_congr fun s occurs => ?_)
  obtain ⟨isObject, image⟩ := reads s occurs
  rw [Expr.imageUnder, image]
  exact congrArg some (values s isObject)

variable {place : Place} (isAt : frame.IsAt place row) {m store : Assignment}
include isAt

/-- Before a transition, a row says that its candidate is true in the store that the symbols at its
place give to the objects. -/
theorem holds_before
    (values : ∀ object ∈ frame.objects, m (frame.before object place) = store object) :
    m.holds (PredicateTemplate.statementBefore row) =
      (!m.holds (frame.guards place).1 || store.holds candidate) := by
  obtain ⟨preGuard, -, _, _, same, pre, -⟩ := proper.row_over isParam condition closed made
  obtain ⟨other, -, isAtOther, before, after, shape, reads⟩ := proper.madeFor_cases isParam made
  obtain rfl := isAtOther.unique isAt
  obtain ⟨rfl, rfl⟩ := RowShape.predicate.inj (same.symm.trans shape)
  have value := eval_read (fun s occurs => ⟨(reads s occurs).1, (reads s occurs).2.1⟩) values
  rw [PredicateTemplate.statementBefore, shape, ← isAt.preGuard]
  change m.holds (row.preGuard.implies (candidate.rename before)) = _
  rw [m.holds_implies preGuard pre, Assignment.holds, Assignment.holds, Assignment.holds, value]

/-- After a transition, likewise. -/
theorem holds_after
    (values : ∀ object ∈ frame.objects, m (frame.after object place) = store object) :
    m.holds (PredicateTemplate.statementAfter row) =
      (!m.holds (frame.guards place).2 || store.holds candidate) := by
  obtain ⟨-, postGuard, _, _, same, -, post⟩ := proper.row_over isParam condition closed made
  obtain ⟨other, -, isAtOther, before, after, shape, reads⟩ := proper.madeFor_cases isParam made
  obtain rfl := isAtOther.unique isAt
  obtain ⟨rfl, rfl⟩ := RowShape.predicate.inj (same.symm.trans shape)
  have value := eval_read (fun s occurs => ⟨(reads s occurs).1, (reads s occurs).2.2⟩) values
  rw [PredicateTemplate.statementAfter, shape, ← isAt.postGuard]
  change m.holds (row.postGuard.implies (candidate.rename after)) = _
  rw [m.holds_implies postGuard post, Assignment.holds, Assignment.holds, Assignment.holds, value]

end Meaning

end Proper

end Frame

end TemplateAnalysis
