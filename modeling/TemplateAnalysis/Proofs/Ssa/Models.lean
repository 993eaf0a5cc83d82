import TemplateAnalysis.Proofs.Ssa.Equations

/-! # Models of single-assignment form

A model of the formulas is a solution of the definitions. Free symbols may be given any values, and
two models that agree on the free symbols below a rank agree on everything below it. In a model, the
guard of a location says that some edge into it is taken, and a merged object has the value that
arrives over the first edge taken.
-/

namespace TemplateAnalysis

namespace Frame

variable {frame : Frame}

/-- No node defines the symbol. -/
def IsFree (frame : Frame) (s : Symbol) : Prop := ∀ e ∈ frame.equalities, e.lhs ≠ s

/-- The second assignment gives the same values to names below a rank. -/
def AgreeBelow (frame : Frame) (bound : Nat) (m n : Assignment) : Prop :=
  ∀ (name : Name) (sort : ValueSort), name.IsProper → frame.rank name < bound →
    n (name.symbol sort) = m (name.symbol sort)

theorem AgreeBelow.mono {low high : Nat} {m n : Assignment} (agree : frame.AgreeBelow high m n)
    (le : low ≤ high) : frame.AgreeBelow low m n :=
  fun name sort proper below => agree name sort proper (Nat.lt_of_lt_of_le below le)

theorem AgreeBelow.trans {bound : Nat} {l m n : Assignment} (first : frame.AgreeBelow bound l m)
    (second : frame.AgreeBelow bound m n) : frame.AgreeBelow bound l n := by
  intro name sort proper below
  rw [second name sort proper below, first name sort proper below]

private theorem formulas_noteLaterAssertions (nodes : List Node) :
    (noteLaterAssertions nodes).flatMap Node.formulas = nodes.flatMap Node.formulas := by
  induction nodes with
  | nil => rfl
  | cons node rest ih => simp only [noteLaterAssertions, List.flatMap_cons, ih, Node.formulas]

private theorem loaded_noteLaterAssertions {nodes : List Node}
    (fresh : ∀ node ∈ nodes, node.loaded = false) :
    ∀ node ∈ noteLaterAssertions nodes, node.loaded = false := by
  induction nodes with
  | nil => exact fresh
  | cons first rest ih =>
    rw [List.forall_mem_cons] at fresh
    rw [noteLaterAssertions, List.forall_mem_cons]
    exact ⟨fresh.1, ih fresh.2⟩

/-- No node of a new form counts as loaded. -/
theorem loaded_complete (params : List Symbol) :
    ∀ node ∈ (frame.complete params).nodes, node.loaded = false := by
  refine loaded_noteLaterAssertions ?_
  rw [List.forall_mem_map]
  exact fun _ _ => rfl

/-- No formula of a new form has been handed out. -/
theorem pendingFormulas_complete (params : List Symbol) :
    (frame.complete params).pendingFormulas = (frame.complete params).formulas := by
  have all : (frame.complete params).nodes.filter (fun node => !node.loaded) =
      (frame.complete params).nodes :=
    List.filter_eq_self.mpr fun node isNode => by simp [loaded_complete params node isNode]
  rw [Ssa.pendingFormulas, all, Ssa.formulas]

private theorem implies_of_true (e : Expr) : Expr.implies (.bool true) e = e := by
  unfold Expr.implies
  split <;> simp_all

namespace Proper

variable {table : SymbolTable} (proper : frame.Proper table)
include proper

/-- The formulas of the form are the definitions of its nodes. -/
theorem formulas_complete (params : List Symbol) :
    (frame.complete params).formulas = frame.equalities.map Equality.formula := by
  change (noteLaterAssertions _).flatMap Node.formulas = _
  rw [formulas_noteLaterAssertions, List.flatMap_map, equalities, List.map_flatMap]
  apply List.flatMap_congr
  rintro ⟨instruction, loc⟩ located
  have here := List.mem_zipIdx_iff_getElem?.mp located
  simp only [Node.formulas, nodeAt, equalitiesAt, (proper.effectAt_eq here).1, List.append_nil,
    List.map_map]
  exact List.map_congr_left fun e _ => implies_of_true e.formula

theorem satisfies_iff {m : Assignment} (params : List Symbol) :
    m.Satisfies (frame.complete params).formulas ↔ m.Solves frame.equalities := by
  rw [proper.formulas_complete params]
  simp only [Assignment.Satisfies, List.mem_map, forall_exists_index, and_imp,
    forall_apply_eq_imp_iff₂, Equality.eval_formula_iff, Assignment.Solves]

theorem isFree_of_isOpen {name : Name} (isProper : name.IsProper) (isOpen : name.isOpen = true)
    (sort : ValueSort) : frame.IsFree (name.symbol sort) := by
  intro e member same
  obtain ⟨loc, instruction, here, member⟩ := frame.mem_equalities.mp member
  obtain ⟨other, defines, -⟩ := proper.equalitiesAt_defines here member
  rw [defines.lhs_eq] at same
  obtain ⟨rfl, -⟩ := Name.eq_of_symbol_eq defines.proper isProper same
  rw [defines.notOpen] at isOpen
  cases isOpen

/-- Models that agree on the free symbols below a rank agree on everything below it. -/
theorem agreeBelow_of_free {m n : Assignment} (solves : m.Solves frame.equalities)
    (solves' : n.Solves frame.equalities) {bound : Nat}
    (free : ∀ (name : Name) (sort : ValueSort), name.IsProper →
      frame.IsFree (name.symbol sort) → frame.rank name < bound →
        n (name.symbol sort) = m (name.symbol sort)) : frame.AgreeBelow bound m n := by
  intro name sort isProper below
  induction rank : frame.rank name using Nat.strongRecOn generalizing name sort with
  | ind r ih =>
    by_cases isFree : frame.IsFree (name.symbol sort)
    · exact free name sort isProper isFree below
    · simp only [IsFree, not_forall, Decidable.not_not] at isFree
      obtain ⟨e, member, same⟩ := isFree
      obtain ⟨loc, instruction, here, located⟩ := frame.mem_equalities.mp member
      obtain ⟨other, defines, -⟩ := proper.equalitiesAt_defines here located
      have names := same
      rw [defines.lhs_eq] at names
      obtain ⟨rfl, -⟩ := Name.eq_of_symbol_eq defines.proper isProper names
      have values : e.rhs.eval n.valuation = e.rhs.eval m.valuation := by
        refine defines.rhs_term.eval_eq ?_
        rintro s ⟨third, sort', rfl, isProper', smaller | ⟨isOpen, le⟩⟩
        · exact ih _ (by omega) third sort' isProper' (by omega) rfl
        · exact free third sort' isProper' (proper.isFree_of_isOpen isProper' isOpen sort')
            (by omega)
      rw [solves' e member, solves e member, same] at values
      exact Option.some.inj values

open Classical in
/-- The free symbols from a rank on may be changed without changing anything below it. -/
theorem exists_change {m : Assignment} (solves : m.Solves frame.equalities) (a : Assignment)
    (bound : Nat) : ∃ n : Assignment, n.Solves frame.equalities ∧ frame.AgreeBelow bound m n ∧
      ∀ (name : Name) (sort : ValueSort), name.IsProper → frame.IsFree (name.symbol sort) →
        bound ≤ frame.rank name → n (name.symbol sort) = a (name.symbol sort) := by
  let mixed := m.override (fun s => decide (∃ (name : Name) (sort : ValueSort),
    s = name.symbol sort ∧ name.IsProper ∧ bound ≤ frame.rank name)) a
  have solves' := mixed.solves_define proper.ordered
  have kept : ∀ s, frame.IsFree s → mixed.define frame.equalities s = mixed s := fun s free =>
    Assignment.define_of_not_defined free
  refine ⟨mixed.define frame.equalities, solves', ?_, ?_⟩
  · refine proper.agreeBelow_of_free solves solves' fun name sort isProper free below => ?_
    rw [kept _ free]
    have unchanged : ¬ ∃ (other : Name) (sort' : ValueSort),
        name.symbol sort = other.symbol sort' ∧ other.IsProper ∧ bound ≤ frame.rank other := by
      rintro ⟨other, sort', same, isProper', above⟩
      obtain ⟨rfl, -⟩ := Name.eq_of_symbol_eq isProper isProper' same
      omega
    exact Assignment.override_other (decide_eq_false unchanged)
  · intro name sort isProper free above
    rw [kept _ free]
    have changed : ∃ (other : Name) (sort' : ValueSort),
        name.symbol sort = other.symbol sort' ∧ other.IsProper ∧ bound ≤ frame.rank other :=
      ⟨name, sort, rfl, isProper, above⟩
    exact Assignment.override_chosen (decide_eq_true changed)

end Proper

/-- The definitions that say how a location is reached and what arrives there. -/
def arrivalEqualities (frame : Frame) (loc : Nat) : List Equality :=
  frame.mergeEqualities loc ++ [frame.guardEquality loc]

theorem arrivalEqualities_subset (loc : Nat) (instruction : Instruction) :
    frame.arrivalEqualities loc ⊆ frame.equalitiesAt loc instruction := by
  intro e member
  rcases List.mem_append.mp member with merge | guard
  · exact List.mem_append_left _ merge
  · rw [List.mem_singleton.mp guard]
    exact List.mem_append_right _ List.mem_cons_self

theorem effectEqualities_subset (loc : Nat) (instruction : Instruction) :
    frame.effectEqualities loc instruction ⊆ frame.equalitiesAt loc instruction :=
  fun _ member => List.mem_append_right _ (List.mem_cons_of_mem _ member)

theorem solves_arrival {m : Assignment} (solves : m.Solves frame.equalities) {loc : Nat}
    (inside : loc < frame.body.length) : m.Solves (frame.arrivalEqualities loc) := fun e member =>
  solves e (frame.mem_equalities.mpr
    ⟨loc, _, List.getElem?_eq_getElem inside, arrivalEqualities_subset loc _ member⟩)

theorem solves_effect {m : Assignment} (solves : m.Solves frame.equalities) {loc : Nat}
    {instruction : Instruction} (here : frame.body[loc]? = some instruction) :
    m.Solves (frame.effectEqualities loc instruction) := fun e member =>
  solves e (frame.mem_equalities.mpr
    ⟨loc, instruction, here, effectEqualities_subset loc instruction member⟩)

/-- Control goes from one location to another. -/
def takes (frame : Frame) (m : Assignment) (loc next : Nat) : Bool :=
  m.holds (frame.edgeGuard loc next)

/-- The value of an object before a location. -/
def valueBefore (frame : Frame) (m : Assignment) (loc : Nat) (object : Symbol) : Value :=
  m ((frame.definitionBefore loc object).version object)

/-- The value of an object after a location. -/
def valueAfter (frame : Frame) (m : Assignment) (loc : Nat) (object : Symbol) : Value :=
  m ((frame.definitionAfter loc object).version object)

/-- An instruction at a reached location lets control go on to `next`. -/
def directs (m : Assignment) (loc next : Nat) (instruction : Instruction) : Bool :=
  match instruction with
  | .goto _ target =>
    let condition := m.holds (branchCondition loc instruction)
    if target = loc + 1 then true else if next = target then condition else !condition
  | .assume _ => m.holds (branchCondition loc instruction)
  | _ => true

theorem takes_eq {m : Assignment} {loc : Nat} {instruction : Instruction}
    (here : frame.body[loc]? = some instruction) (next : Nat) :
    frame.takes m loc next =
      (m.truth (Name.guard loc).bool && directs m loc next instruction) := by
  have guard := guard_term loc
  have branch := branchCondition_term loc instruction
  rw [takes, edgeGuard, edgeGuard?, here, Option.map_some, Option.getD_some]
  cases instruction with
  | goto condition target =>
    simp only [edgeCondition, directs]
    split
    · simp
    · split
      · rw [m.holds_and guard branch, m.holds_var]
      · rw [m.holds_and guard branch.not, m.holds_var, m.holds_not branch]
  | assume condition =>
    simp only [edgeCondition, directs]
    rw [m.holds_and guard branch, m.holds_var]
  | _ => simp [edgeCondition, directs]

/-- An edge is taken from reached locations only. -/
theorem guard_of_takes {m : Assignment} {loc next : Nat}
    (edge : (loc, next) ∈ Flow.edges frame.body) (taken : frame.takes m loc next = true) :
    m.truth (Name.guard loc).bool = true := by
  obtain ⟨instruction, here, -⟩ := Flow.mem_edges.mp edge
  rw [takes_eq here, Bool.and_eq_true] at taken
  exact taken.1

/-- Edges that leave earlier locations do not depend on symbols of later ones. -/
theorem AgreeBelow.takes_eq {bound : Nat} {m n : Assignment} (agree : frame.AgreeBelow bound m n)
    {loc next : Nat} (edge : (loc, next) ∈ Flow.edges frame.body) (below : 2 * loc + 2 < bound) :
    frame.takes n loc next = frame.takes m loc next := by
  obtain ⟨instruction, here, -⟩ := Flow.mem_edges.mp edge
  have value : (frame.edgeGuard loc next).eval n.valuation =
      (frame.edgeGuard loc next).eval m.valuation := by
    refine (edgeGuard_term here next).eval_eq ?_
    rintro s (rfl | rfl)
    · exact agree (.guard loc) .bool nofun (Nat.lt_of_succ_lt below)
    · exact agree (.cond loc) .bool nofun below
  rw [takes, takes, Assignment.holds, value, Assignment.holds]

theorem chooseFirst_cons {alternatives : List (Expr × Expr)} (nonempty : alternatives ≠ [])
    (first : Expr × Expr) : chooseFirst (first :: alternatives) =
      (chooseFirst alternatives).map (Expr.ite first.1 first.2) := by
  cases alternatives with
  | nil => exact absurd rfl nonempty
  | cons second rest => rfl

theorem exists_chooseFirst {alternatives : List (Expr × Expr)} (nonempty : alternatives ≠ []) :
    ∃ value, chooseFirst alternatives = some value := by
  induction alternatives with
  | nil => exact absurd rfl nonempty
  | cons first rest ih =>
    cases rest with
    | nil => exact ⟨first.2, rfl⟩
    | cons second rest =>
      obtain ⟨value, chosen⟩ := ih (List.cons_ne_nil _ _)
      exact ⟨_, by rw [chooseFirst_cons (List.cons_ne_nil _ _), chosen, Option.map_some]⟩

/-- The first alternative whose guard is true is chosen. -/
theorem eval_chooseFirst {m : Assignment} {P : Symbol → Prop} {before after : List (Expr × Expr)}
    {guard value chosen : Expr}
    (chooses : chooseFirst (before ++ (guard, value) :: after) = some chosen)
    (terms : ∀ alternative ∈ before ++ (guard, value) :: after, alternative.1.TermOver P .bool)
    (skipped : ∀ alternative ∈ before, m.holds alternative.1 = false)
    (isTrue : m.holds guard = true) : chosen.eval m.valuation = value.eval m.valuation := by
  induction before generalizing chosen with
  | nil =>
    cases after with
    | nil =>
      cases chooses
      rfl
    | cons second rest =>
      rw [List.nil_append, chooseFirst_cons (List.cons_ne_nil _ _)] at chooses
      obtain ⟨other, -, rfl⟩ := Option.map_eq_some_iff.mp chooses
      rw [Expr.eval_ite_of_bool (m.eval_eq_holds (terms _ List.mem_cons_self)), isTrue]
      rfl
  | cons first before ih =>
    rw [List.cons_append, chooseFirst_cons (by simp)] at chooses
    obtain ⟨other, later, rfl⟩ := Option.map_eq_some_iff.mp chooses
    rw [Expr.eval_ite_of_bool (m.eval_eq_holds (terms first List.mem_cons_self)),
      skipped first List.mem_cons_self]
    exact ih later (fun a member => terms a (List.mem_cons_of_mem _ member))
      fun a member => skipped a (List.mem_cons_of_mem _ member)

namespace Proper

variable {table : SymbolTable} (proper : frame.Proper table) {m : Assignment} {loc : Nat}
  (solves : m.Solves (frame.arrivalEqualities loc))
include proper solves

/-- A location is reached on entry, over a forward edge that is taken or over a selected back
edge. -/
theorem guard_truth : m.truth (Name.guard loc).bool = (decide (loc = 0) ||
      (frame.flow.forwardPreds loc).any (fun pred => frame.takes m pred loc) ||
      (frame.flow.backEdges loc).any fun b => m.truth (loopSelect b)) := by
  have member : frame.guardEquality loc ∈ frame.arrivalEqualities loc :=
    List.mem_append_right _ (List.mem_singleton_self _)
  have value : m.truth (Name.guard loc).bool = m.holds (frame.guardEquality loc).rhs := by
    rw [Assignment.holds, solves _ member]
    rfl
  rw [value]
  refine (m.holds_disj (proper.reached_terms loc)).trans ?_
  rw [List.any_append, List.any_map]
  by_cases entry : loc = 0
  · simp [entry]
  · simp [entry, takes, Function.comp_def]

private theorem phi_of_first (inside : loc < frame.body.length) {object : Symbol}
    (isMerged : object ∈ frame.mergedObjects loc) {before after : List (Expr × Expr)}
    {guard value : Expr}
    (split : frame.alternatives object loc = before ++ (guard, value) :: after)
    (skipped : ∀ alternative ∈ before, m.holds alternative.1 = false)
    (isTrue : m.holds guard = true) : value.eval m.valuation = some (m (phi object loc)) := by
  obtain ⟨isObject, -⟩ := (proper.mem_mergedObjects inside).mp isMerged
  have terms : ∀ a ∈ frame.alternatives object loc, _ := proper.alternatives_term isObject
  have nonempty : frame.alternatives object loc ≠ [] := by simp [split]
  obtain ⟨chosen, chooses⟩ := exists_chooseFirst nonempty
  have member : ⟨phi object loc, chosen⟩ ∈ frame.arrivalEqualities loc :=
    List.mem_append_left _ (mem_mergeEqualities.mpr ⟨object, isMerged, chosen, chooses, rfl⟩)
  rw [split] at chooses terms
  rw [← eval_chooseFirst chooses (fun a member => (terms a member).1) skipped isTrue]
  exact solves _ member

/-- A merged object has the value that arrives over the first selected back edge. -/
theorem phi_of_back (inside : loc < frame.body.length) {object : Symbol}
    (isMerged : object ∈ frame.mergedObjects loc) {earlier later : List Nat} {b : Nat}
    (backs : frame.flow.backEdges loc = earlier ++ b :: later)
    (skipped : ∀ c ∈ earlier, m.truth (loopSelect c) = false)
    (selected : m.truth (loopSelect b) = true) :
    m (phi object loc) = m (loopBack object b) := by
  obtain ⟨after, split⟩ : ∃ after, frame.alternatives object loc =
      (earlier.map fun c => (.var (loopSelect c), .var (loopBack object c))) ++
        (.var (loopSelect b), .var (loopBack object b)) :: after := by
    rw [alternatives, backs, List.map_append, List.map_cons, List.append_assoc, List.append_assoc,
      List.cons_append]
    exact ⟨_, rfl⟩
  have value := proper.phi_of_first solves inside isMerged split (by simpa using skipped) selected
  exact (Option.some.inj value).symm

omit solves in
/-- On entry, without a selected back edge, an object has its input value. -/
theorem valueBefore_entry (solves : m.Solves (frame.arrivalEqualities 0)) {object : Symbol}
    (isObject : object ∈ frame.objects)
    (noBack : ∀ b ∈ frame.flow.backEdges 0, m.truth (loopSelect b) = false) :
    frame.valueBefore m 0 object = m (Definition.input.version object) := by
  have inside := proper.accepted.length_pos
  unfold valueBefore
  rcases proper.definitionBefore_cases inside isObject with merged | ⟨-, same, -⟩
  · have isMerged := (proper.mem_mergedObjects inside).mpr ⟨isObject, merged⟩
    obtain ⟨after, split⟩ : ∃ after, frame.alternatives object 0 =
        ((frame.flow.backEdges 0).map fun b => (.var (loopSelect b), .var (loopBack object b))) ++
          (.bool true, .var (Definition.input.version object)) :: after := by
      rw [alternatives, if_pos rfl, List.append_assoc, List.cons_append]
      exact ⟨_, rfl⟩
    have value := proper.phi_of_first solves inside isMerged split (by simpa using noBack) rfl
    rw [merged]
    exact (Option.some.inj value).symm
  · have arrives : (fun _ => .input) ∈ frame.arriving 0 := List.mem_singleton_self _
    rw [← same _ arrives]

/-- Where exactly one forward edge is taken and no back edge is selected, objects keep the values
they have at the source of the edge. -/
theorem valueBefore_of_pred {pred : Nat} (isPred : pred ∈ frame.flow.forwardPreds loc)
    (noBack : ∀ b ∈ frame.flow.backEdges loc, m.truth (loopSelect b) = false)
    (taken : frame.takes m pred loc = true)
    (only : ∀ other ∈ frame.flow.forwardPreds loc, other ≠ pred → frame.takes m other loc = false)
    {object : Symbol} (isObject : object ∈ frame.objects) :
    frame.valueBefore m loc object = frame.valueAfter m pred object := by
  obtain ⟨earlier, inside⟩ := proper.pred_lt isPred
  have notEntry : loc ≠ 0 := by omega
  unfold valueBefore valueAfter
  rcases proper.definitionBefore_cases inside isObject with merged | ⟨-, same, -⟩
  · have isMerged := (proper.mem_mergedObjects inside).mpr ⟨isObject, merged⟩
    obtain ⟨front, rest, preds, fresh⟩ := List.eq_append_cons_of_mem isPred
    -- every source of an edge has a version of the object
    have versions : ∀ other ∈ frame.flow.forwardPreds loc,
        ((frame.readAfter? object.name other).map fun version =>
          (frame.edgeGuard other loc, Expr.var version)) = some (frame.edgeGuard other loc,
            Expr.var ((frame.definitionAfter other object).version object)) := by
      intro other isOther
      have bounds := proper.pred_lt isOther
      rw [proper.readAfter?_eq (by omega) isObject, Option.map_some]
    obtain ⟨after, split⟩ : ∃ after, frame.alternatives object loc =
        ((frame.flow.backEdges loc).map fun b => (.var (loopSelect b), .var (loopBack object b))) ++
          (front.map fun other => (frame.edgeGuard other loc,
            .var ((frame.definitionAfter other object).version object))) ++
          (frame.edgeGuard pred loc, .var ((frame.definitionAfter pred object).version object)) ::
            after := by
      rw [alternatives, if_neg notEntry, List.append_nil, List.filterMap_congr versions,
        List.filterMap_eq_map', preds, List.map_append, List.map_cons, ← List.append_assoc]
      exact ⟨_, rfl⟩
    have value := proper.phi_of_first solves inside isMerged split ?_ taken
    · rw [merged]
      exact (Option.some.inj value).symm
    · intro alternative member
      rcases List.mem_append.mp member with back | forward
      · obtain ⟨b, isBack, rfl⟩ := List.mem_map.mp back
        exact noBack b isBack
      · obtain ⟨other, isOther, rfl⟩ := List.mem_map.mp forward
        refine only other (preds ▸ List.mem_append_left _ isOther) ?_
        rintro rfl
        exact fresh isOther
  · have arrives : frame.definitionAfter pred ∈ frame.arriving loc := by
      rw [arriving, if_neg notEntry]
      exact List.mem_map_of_mem isPred
    rw [← same _ arrives]

end Proper

end Frame

end TemplateAnalysis
