import Mathlib.Data.Set.Card
import Mathlib.Order.CompletePartialOrder
import Mathlib.Order.Interval.Set.Basic
import TemplateAnalysis.Proofs.Ssa.OverApproximation
import TemplateAnalysis.Proofs.Unwinding.Series

/-! # Loops are entered through their heads

Acceptance looks at pairs of extents and at forward edges only. A back edge closes a loop of its
own, and the extent of that loop would overlap with an extent that the edge entered from behind. So
no edge of an accepted body enters an extent past its head, and every walk from the entry to a
location of an extent has been at the head. The loops around a head are as many as the counters
with which it is unwound.
-/

namespace TemplateAnalysis

namespace Flow

/-- A walk along the edges of a body, with the locations it visits in order. -/
inductive Walk (body : List Instruction) (start : Nat) : List Nat → Nat → Prop
  | here : Walk body start [start] start
  | step {visited : List Nat} {loc next : Nat} (walk : Walk body start visited loc)
      (edge : (loc, next) ∈ edges body) : Walk body start (visited ++ [next]) next

theorem extent?_eq_some_iff {flow : Flow} {head last : Nat} :
    flow.extent? head = some last ↔ flow.isHead head = true ∧ flow.extentEnd head = last := by
  simp [extent?]

end Flow

namespace Accepted

variable {body : List Instruction} (accepted : Accepted body)
include accepted

/-- A loop that starts later lies apart from an earlier one, or inside it. -/
theorem disjoint_or_subset_of_lt {first second : Nat}
    (isFirst : (Flow.ofBody body).isHead first = true)
    (isSecond : (Flow.ofBody body).isHead second = true) (before : first < second) :
    Disjoint (Set.Icc first ((Flow.ofBody body).extentEnd first))
        (Set.Icc second ((Flow.ofBody body).extentEnd second)) ∨
      Set.Icc second ((Flow.ofBody body).extentEnd second) ⊆
        Set.Icc first ((Flow.ofBody body).extentEnd first) := by
  by_cases reaches : second ≤ (Flow.ofBody body).extentEnd first
  · right
    apply Set.Icc_subset_Icc (Nat.le_of_lt before)
    exact accepted.nested first second isFirst isSecond before reaches
  · left
    apply Set.disjoint_left.mpr
    intro loc inFirst inSecond
    have low := inSecond.1
    have high := inFirst.2
    omega

/-- An edge from outside an extent goes to its head, if it goes to the extent at all. -/
theorem target_eq_head {source target head : Nat} (edge : (source, target) ∈ Flow.edges body)
    (isHead : (Flow.ofBody body).isHead head = true)
    (outside : source ∉ Set.Icc head ((Flow.ofBody body).extentEnd head))
    (inside : target ∈ Set.Icc head ((Flow.ofBody body).extentEnd head)) : target = head := by
  by_contra other
  obtain ⟨low, high⟩ := inside
  have past : head < target := by omega
  apply outside
  rcases Nat.lt_or_ge source target with forward | closes
  · have entered := accepted.entered source target head edge forward isHead past high
    constructor <;> omega
  · -- the loop that the back edge closes would overlap with the extent
    have isBack := Flow.mem_backEdges.mpr ⟨edge, closes⟩
    have isTarget := (Flow.isHead_iff _).mpr ⟨source, isBack⟩
    have nests := accepted.nested head target isHead isTarget past high
    have last := Flow.le_extentEnd isBack
    constructor <;> omega

/-- From the entry, an extent is reached through its head. -/
theorem head_mem_of_walk {visited : List Nat} {loc head : Nat}
    (walk : Flow.Walk body 0 visited loc) (isHead : (Flow.ofBody body).isHead head = true)
    (inside : loc ∈ Set.Icc head ((Flow.ofBody body).extentEnd head)) : head ∈ visited := by
  induction walk with
  | here =>
    obtain rfl : head = 0 := Nat.le_zero.mp inside.1
    exact List.mem_singleton_self 0
  | @step visited loc next walk edge ih =>
    apply List.mem_append.mpr
    by_cases already : loc ∈ Set.Icc head ((Flow.ofBody body).extentEnd head)
    · exact .inl (ih already)
    · right
      rw [accepted.target_eq_head edge isHead already inside]
      exact List.mem_singleton_self head

/-- The nesting depth is the number of extents around a location. -/
theorem depth_eq_ncard (loc : Nat) : (Flow.ofBody body).depth loc =
    Set.ncard {head | ∃ last, (Flow.ofBody body).extent? head = some last ∧
      loc ∈ Set.Icc head last} := by
  have around : {head | ∃ last, (Flow.ofBody body).extent? head = some last ∧
      loc ∈ Set.Icc head last} = ((Flow.ofBody body).enclosing loc).toFinset := by
    ext head
    simp only [Set.mem_ofPred_eq, List.coe_toFinset, accepted.mem_enclosing,
      Flow.extent?_eq_some_iff, Flow.inExtent_iff, Set.mem_Icc]
    constructor
    · rintro ⟨last, ⟨isHead, rfl⟩, within⟩
      exact ⟨isHead, within⟩
    · rintro ⟨isHead, within⟩
      exact ⟨_, ⟨isHead, rfl⟩, within⟩
  rw [around, Set.ncard_coe_finset, List.toFinset_card_of_nodup (Flow.enclosing_nodup _ loc)]
  rfl

end Accepted

theorem Odometer.depth_increment {o next : Odometer} (counted : o.increment = .ok next) :
    next.depth = o.depth := by
  unfold increment at counted
  split at counted
  · cases counted
  · next level last =>
    split at counted
    · cases counted
      obtain ⟨front, levels⟩ := List.getLast?_eq_some_iff.mp last
      simp [depth, modify, levels]
    · cases counted

namespace Unwinder

/-- Entering one loop after the other appends their heads. -/
theorem heads_enterLoops (counts : List ((Nat × List Nat) × Nat)) (chain : List Nat)
    (entered : List (Nat × Nat)) :
    (chain.foldl (enterLoop counts) entered).map (·.1) = entered.map (·.1) ++ chain := by
  induction chain generalizing entered with
  | nil => exact (List.append_nil _).symm
  | cons head rest ih =>
    rw [List.foldl_cons, ih, enterLoop, List.map_append, List.append_assoc]
    rfl

/-- Whatever loops were entered before, those around the head are entered now. -/
theorem heads_enter (u : Unwinder) (flow : Flow) (head : Nat) :
    (u.enter flow head).entered.map (·.1) = flow.enclosing head := by
  obtain ⟨-, heads⟩ := shared_isPrefix u.entered (flow.enclosing head)
  change (((flow.enclosing head).drop (shared u.entered (flow.enclosing head)).length).foldl
    (enterLoop u.counts) (shared u.entered (flow.enclosing head))).map (·.1) = _
  generalize shared u.entered (flow.enclosing head) = kept at heads ⊢
  obtain ⟨inner, chain⟩ := heads
  have rest : (flow.enclosing head).drop kept.length = inner := by
    rw [← chain]
    simp
  rw [heads_enterLoops, rest, chain]

theorem depth_enter (u : Unwinder) (flow : Flow) (head : Nat) :
    (u.enter flow head).odometer.depth = flow.depth head := by
  rw [Flow.depth, ← heads_enter u flow head]
  simp [odometer, Odometer.depth]

/-- Control flow is not changed by unwinding. -/
theorem flow_of_unwind {u u' : Unwinder} {ssa ssa' : Ssa} {head : Nat} {literal : Symbol}
    (made : u.unwind ssa head = .ok (literal, u', ssa')) : ssa'.flow = ssa.flow := by
  unfold Unwinder.unwind at made
  split at made
  · cases made
  · dsimp only at made
    split at made
    · cases made
    · cases made
      rfl

/-- A head is unwound under as many counters as there are loops around it. -/
theorem depth_unwind {u u' : Unwinder} {ssa ssa' : Ssa} {head : Nat} {literal : Symbol}
    (made : u.unwind ssa head = .ok (literal, u', ssa')) :
    u'.odometer.depth = ssa.flow.depth head := by
  unfold Unwinder.unwind at made
  split at made
  · cases made
  · dsimp only at made
    split at made
    · cases made
    · next counters counted =>
      cases made
      have entered := depth_enter u ssa.flow head
      have levels := Odometer.depth_increment counted
      simp only [odometer, Odometer.depth, List.length_map, List.length_zip] at entered levels ⊢
      omega

end Unwinder

namespace Ssa

/-- The loops of an accepted procedure lie apart or inside each other, and each is entered through
its head: by edges, and hence by every walk from the entry. A location has the depth of the extents
around it, and in whatever state a series of unwindings is, a head takes as many counters. -/
theorem nested_and_entered_at_heads {function : String} {procedure : Procedure}
    {table : SymbolTable} {ssa : Ssa} (built : Ssa.build function procedure table = .ok ssa) :
    (∀ first last second last', ssa.flow.extent? first = some last →
      ssa.flow.extent? second = some last' → first ≠ second →
        Disjoint (Set.Icc first last) (Set.Icc second last') ∨
          Set.Icc first last ⊆ Set.Icc second last' ∨
          Set.Icc second last' ⊆ Set.Icc first last) ∧
    (∀ head last, ssa.flow.extent? head = some last →
      (∀ source target, (source, target) ∈ Flow.edges procedure.body →
        source ∉ Set.Icc head last → target ∈ Set.Icc head last → target = head) ∧
      (∀ visited loc, Flow.Walk procedure.body 0 visited loc → loc ∈ Set.Icc head last →
        head ∈ visited) ∧
      ssa.flow.depth head = Set.ncard {other | ∃ last', ssa.flow.extent? other = some last' ∧
        head ∈ Set.Icc other last'} ∧
      ∀ (u : Unwinder) (form : Ssa), form.flow = ssa.flow →
        (u.enter form.flow head).odometer.depth = ssa.flow.depth head ∧
        ∀ literal u' form', u.unwind form head = .ok (literal, u', form') →
          form'.flow = ssa.flow ∧ u'.odometer.depth = ssa.flow.depth head) := by
  obtain ⟨frame, isFrame, rfl⟩ := frame_of_build built
  obtain ⟨regular, body, -⟩ := Frame.regular_of_build isFrame
  have flow : (frame.complete procedure.params).flow = Flow.ofBody procedure.body := by
    rw [← body]
    exact regular.flow_eq
  have accepted : Accepted procedure.body := body ▸ regular.accepted
  rw [flow]
  refine ⟨fun first last second last' isFirst isSecond apart => ?_, fun head last isExtent => ?_⟩
  · obtain ⟨isHead, rfl⟩ := Flow.extent?_eq_some_iff.mp isFirst
    obtain ⟨isHead', rfl⟩ := Flow.extent?_eq_some_iff.mp isSecond
    rcases Nat.lt_or_gt_of_ne apart with before | behind
    · exact (accepted.disjoint_or_subset_of_lt isHead isHead' before).imp_right .inr
    · rcases accepted.disjoint_or_subset_of_lt isHead' isHead behind with disjoint | inside
      · exact .inl disjoint.symm
      · exact .inr (.inl inside)
  · obtain ⟨isHead, rfl⟩ := Flow.extent?_eq_some_iff.mp isExtent
    refine ⟨fun source target edge => accepted.target_eq_head edge isHead,
      fun visited loc walk => accepted.head_mem_of_walk walk isHead, accepted.depth_eq_ncard head,
      fun u form same => ⟨?_, fun literal u' form' made => ⟨?_, ?_⟩⟩⟩
    · rw [same]
      exact u.depth_enter _ head
    · rw [← same]
      exact Unwinder.flow_of_unwind made
    · rw [← same]
      exact Unwinder.depth_unwind made

/-- A loop of one location inside a loop with two back edges, inside a third loop. -/
def threefold : Procedure where
  params := [⟨"x", .int⟩]
  body := [
    .skip,
    .assign ⟨"x", .int⟩ (.arith .sub (.var ⟨"x", .int⟩) (.int 1)),
    .goto (.nondet .bool) 2,
    .goto (.nondet .bool) 1,
    .goto (.nondet .bool) 1,
    .goto (.nondet .bool) 0,
    .endFunction]

/-- Every walk to the second back edge of the middle loop has been at its head, and the innermost
loop is unwound under three counters. -/
theorem nested_and_entered_threefold : ∃ ssa literal u form,
    Ssa.build "f" threefold [] = .ok ssa ∧ ssa.flow.extent? 1 = some 4 ∧
    ssa.flow.extent? 2 = some 2 ∧
    (Disjoint (Set.Icc 1 4) (Set.Icc 2 2) ∨ Set.Icc 1 4 ⊆ Set.Icc 2 2 ∨
      Set.Icc 2 2 ⊆ Set.Icc 1 4) ∧
    (∃ visited, Flow.Walk threefold.body 0 visited 4) ∧
    (∀ visited, Flow.Walk threefold.body 0 visited 4 → 1 ∈ visited) ∧
    Unwinder.unwind {} ssa 2 = .ok (literal, u, form) ∧ u.odometer.levels = [0, 0, 1] ∧
    Set.ncard {other | ∃ last, ssa.flow.extent? other = some last ∧ 2 ∈ Set.Icc other last} = 3 := by
  obtain ⟨ssa, built⟩ : ∃ ssa, Ssa.build "f" threefold [] = .ok ssa := ⟨_, rfl⟩
  have found : ssa.flow.extent? 1 = some 4 ∧ ssa.flow.extent? 2 = some 2 ∧
      ssa.flow.depth 2 = 3 ∧ ∃ literal u form, Unwinder.unwind {} ssa 2 = .ok (literal, u, form) ∧
        u.odometer.levels = [0, 0, 1] := by
    cases built
    exact ⟨rfl, rfl, rfl, _, _, _, rfl, rfl⟩
  obtain ⟨middle, inner, depth, literal, u, form, made, levels⟩ := found
  obtain ⟨nest, entered⟩ := nested_and_entered_at_heads built
  obtain ⟨-, through, -⟩ := entered 1 4 middle
  obtain ⟨-, -, count, -⟩ := entered 2 2 inner
  have walk : Flow.Walk threefold.body 0 [0, 1, 2, 3, 4] 4 :=
    (((Flow.Walk.here.step (by decide)).step (by decide)).step (by decide)).step (by decide)
  exact ⟨ssa, literal, u, form, built, middle, inner,
    nest 1 4 2 2 middle inner (by decide), ⟨_, walk⟩,
    fun visited walk => through visited 4 walk ⟨by decide, by decide⟩, made, levels,
    count.symm.trans depth⟩

end Ssa

end TemplateAnalysis
