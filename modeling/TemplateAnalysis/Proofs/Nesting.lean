import Mathlib.Data.List.Nodup
import TemplateAnalysis.Proofs.ControlFlow

/-! # Nesting of loops

The extents of an accepted body nest, so the loops around a location form a chain: the loops around
one of them are those before it. A loop is determined by a location in its extent and its depth. A
loop that stands alone is left for good: its edges lead onward or to its head, and none comes back.
-/

namespace TemplateAnalysis

namespace Flow

theorem inExtent_iff {flow : Flow} {head loc : Nat} :
    flow.inExtent head loc = true ↔ head ≤ loc ∧ loc ≤ flow.extentEnd head := by
  simp [inExtent]

theorem edges_nodup (body : List Instruction) : (edges body).Nodup := by
  refine List.nodup_flatMap.mpr ⟨?_, (zipIdx_pairwise body).imp ?_⟩
  · rintro ⟨instruction, loc⟩ -
    refine List.Nodup.map (fun next other same => (Prod.mk.inj same).2) ?_
    cases instruction with
    | goto condition target =>
      simp only [Instruction.successors]
      split_ifs with isTrue isFalse beside
      · exact List.nodup_singleton _
      · exact List.nodup_singleton _
      · exact List.nodup_singleton _
      · simpa using beside
    | endFunction => exact List.nodup_nil
    | _ => exact List.nodup_singleton _
  · intro first second ahead edge here there
    obtain ⟨next, -, rfl⟩ := List.mem_map.mp here
    obtain ⟨next', -, same⟩ := List.mem_map.mp there
    have locs := (Prod.mk.inj same).1
    omega

/-- Every back edge of a head is listed once. -/
theorem backEdges_nodup (body : List Instruction) (head : Nat) :
    ((ofBody body).backEdges head).Nodup := by
  have loops : (ofBody body).loops.Nodup := by
    refine List.Nodup.map ?_ ((edges_nodup body).filter _)
    rintro ⟨loc, next⟩ ⟨loc', next'⟩ same
    cases same
    rfl
  refine (loops.filter _).map_on ?_
  rintro ⟨first, b⟩ isFirst ⟨second, b'⟩ isSecond rfl
  simp only [List.mem_filter, beq_iff_eq] at isFirst isSecond
  rw [isFirst.2, isSecond.2]

/-- The back edges of a head are listed in location order. -/
theorem backEdges_pairwise (body : List Instruction) (head : Nat) :
    ((ofBody body).backEdges head).Pairwise (· < ·) := by
  have located : (edges body).Pairwise fun first second => first.1 ≤ second.1 := by
    refine List.pairwise_flatMap.mpr ⟨?_, (zipIdx_pairwise body).imp ?_⟩
    · rintro ⟨instruction, loc⟩ -
      exact List.pairwise_map.mpr (List.pairwise_of_forall fun _ _ => Nat.le_refl loc)
    · intro first second before edge here edge' there
      obtain ⟨-, -, rfl⟩ := List.mem_map.mp here
      obtain ⟨-, -, rfl⟩ := List.mem_map.mp there
      exact Nat.le_of_lt before
  have loops : (ofBody body).loops.Pairwise fun first second =>
      first.backEdge ≤ second.backEdge := List.pairwise_map.mpr (located.filter _)
  have ordered : ((ofBody body).backEdges head).Pairwise (· ≤ ·) :=
    List.pairwise_map.mpr (loops.filter _)
  exact (ordered.and (backEdges_nodup body head)).imp fun both =>
    Nat.lt_of_le_of_ne both.1 both.2

theorem enclosing_pairwise (flow : Flow) (loc : Nat) : (flow.enclosing loc).Pairwise (· < ·) :=
  (List.pairwise_lt_range.filter _).filter _

theorem enclosing_nodup (flow : Flow) (loc : Nat) : (flow.enclosing loc).Nodup :=
  (flow.enclosing_pairwise loc).imp Nat.ne_of_lt

/-- A loop that lies in no other one and contains no other one. -/
structure StandsAlone (flow : Flow) (head : Nat) : Prop where
  isHead : flow.isHead head = true
  outermost : ∀ other, flow.isHead other = true → flow.inExtent other head = true → other = head
  innermost : ∀ other, flow.isHead other = true → flow.inExtent head other = true → other = head

namespace StandsAlone

/-- The only loop with a location in common is the loop itself. -/
theorem eq_of_inExtent {flow : Flow} {head other loc : Nat} (alone : flow.StandsAlone head)
    (isOther : flow.isHead other = true) (within : flow.inExtent head loc = true)
    (within' : flow.inExtent other loc = true) : other = head := by
  rw [inExtent_iff] at within within'
  rcases Nat.le_total other head with before | behind
  · exact alone.outermost other isOther (inExtent_iff.mpr (by omega))
  · exact alone.innermost other isOther (inExtent_iff.mpr (by omega))

variable {body : List Instruction} {head : Nat} (alone : (ofBody body).StandsAlone head)
include alone

/-- From the loop, edges lead onward or back to its head. -/
theorem edge_of_inExtent {source target : Nat} (edge : (source, target) ∈ edges body)
    (within : (ofBody body).inExtent head source = true) (closes : target ≤ source) :
    target = head := by
  have isBack := mem_backEdges.mpr ⟨edge, closes⟩
  have isHead := (isHead_iff _).mpr ⟨source, isBack⟩
  exact alone.eq_of_inExtent isHead within (inExtent_iff.mpr ⟨closes, le_extentEnd isBack⟩)

/-- From behind the loop, no edge leads back to it. -/
theorem edge_of_extentEnd_lt {source target : Nat} (edge : (source, target) ∈ edges body)
    (behind : (ofBody body).extentEnd head < source) :
    (ofBody body).extentEnd head < target := by
  by_contra inside
  have isBack := mem_backEdges.mpr ⟨edge, by omega⟩
  have isHead := (isHead_iff _).mpr ⟨source, isBack⟩
  have last := le_extentEnd isBack
  obtain ⟨b, isOwn⟩ := (isHead_iff _).mp alone.isHead
  have own := le_extentEnd isOwn
  have closes := (mem_backEdges.mp isOwn).2
  have same : target = head := by
    rcases Nat.le_total target head with before | after
    · exact alone.outermost target isHead (inExtent_iff.mpr (by omega))
    · exact alone.innermost target isHead (inExtent_iff.mpr (by omega))
  rw [same] at last
  omega

end StandsAlone

end Flow

private theorem foldl_max_lt {bs : List Nat} {start bound : Nat} (low : start < bound)
    (all : ∀ b ∈ bs, b < bound) : bs.foldl max start < bound := by
  induction bs generalizing start with
  | nil => exact low
  | cons b bs ih =>
    obtain ⟨here, rest⟩ := List.forall_mem_cons.mp all
    exact ih (Nat.max_lt.mpr ⟨low, here⟩) rest

namespace Accepted

variable {body : List Instruction} (accepted : Accepted body)
include accepted

theorem extentEnd_lt {head : Nat} (isHead : (Flow.ofBody body).isHead head = true) :
    head ≤ (Flow.ofBody body).extentEnd head ∧
      (Flow.ofBody body).extentEnd head < body.length := by
  obtain ⟨b, isBack⟩ := (Flow.isHead_iff _).mp isHead
  have low := Flow.le_extentEnd isBack
  have closes := (Flow.mem_backEdges.mp isBack).2
  exact ⟨by omega, foldl_max_lt accepted.length_pos fun b isBack =>
    source_lt (Flow.mem_backEdges.mp isBack).1⟩

theorem inExtent_self {head : Nat} (isHead : (Flow.ofBody body).isHead head = true) :
    (Flow.ofBody body).inExtent head head = true :=
  Flow.inExtent_iff.mpr ⟨Nat.le_refl _, (accepted.extentEnd_lt isHead).1⟩

theorem mem_enclosing {head loc : Nat} : head ∈ (Flow.ofBody body).enclosing loc ↔
    (Flow.ofBody body).isHead head = true ∧ (Flow.ofBody body).inExtent head loc = true := by
  simp only [Flow.enclosing, Flow.heads, List.mem_filter, List.mem_range]
  constructor
  · rintro ⟨⟨-, isHead⟩, within⟩
    exact ⟨isHead, within⟩
  · rintro ⟨isHead, within⟩
    obtain ⟨first, last⟩ := accepted.extentEnd_lt isHead
    exact ⟨⟨Nat.lt_of_le_of_lt first last, isHead⟩, within⟩

/-- Around a location in the extent of a head there are the loops around the head, then others. -/
theorem enclosing_isPrefix {head loc : Nat} (isHead : (Flow.ofBody body).isHead head = true)
    (within : (Flow.ofBody body).inExtent head loc = true) :
    (Flow.ofBody body).enclosing head <+: (Flow.ofBody body).enclosing loc := by
  obtain ⟨below, above⟩ := Flow.inExtent_iff.mp within
  have outer : (Flow.ofBody body).enclosing head =
      ((Flow.ofBody body).enclosing loc).filter (· ≤ head) := by
    simp only [Flow.enclosing, List.filter_filter]
    refine List.filter_congr fun other member => ?_
    have isOther : (Flow.ofBody body).isHead other = true := (List.mem_filter.mp member).2
    rw [Bool.eq_iff_iff]
    simp only [Flow.inExtent_iff, Bool.and_eq_true, decide_eq_true_eq]
    constructor
    · rintro ⟨first, last⟩
      refine ⟨first, by omega, ?_⟩
      rcases Nat.eq_or_lt_of_le first with rfl | before
      · exact above
      · have nests := accepted.nested other head isOther isHead before last
        omega
    · rintro ⟨first, -, last⟩
      exact ⟨first, by omega⟩
  have sorted := Flow.enclosing_pairwise (Flow.ofBody body) loc
  refine ⟨((Flow.ofBody body).enclosing loc).filter fun other => !decide (other ≤ head), ?_⟩
  rw [outer]
  refine (List.filter_append_perm _ _).eq_of_pairwise ?_ ?_ sorted
  · intro a b _ _ first second
    omega
  rw [List.pairwise_append]
  refine ⟨sorted.filter _, sorted.filter _, ?_⟩
  intro a first b second
  simp only [List.mem_filter, Bool.not_eq_true', decide_eq_true_eq, decide_eq_false_iff_not] at *
  omega

/-- The innermost loop around a head is its own. -/
theorem enclosing_concat {head : Nat} (isHead : (Flow.ofBody body).isHead head = true) :
    ∃ front, (Flow.ofBody body).enclosing head = front ++ [head] := by
  have member := accepted.mem_enclosing.mpr ⟨isHead, accepted.inExtent_self isHead⟩
  have sorted := Flow.enclosing_pairwise (Flow.ofBody body) head
  obtain ⟨front, back, split⟩ := List.append_of_mem member
  cases back with
  | nil => exact ⟨front, split⟩
  | cons next back =>
    have isNext : next ∈ (Flow.ofBody body).enclosing head := by simp [split]
    have le := (Flow.inExtent_iff.mp (accepted.mem_enclosing.mp isNext).2).1
    rw [split, List.pairwise_append] at sorted
    have lt := (List.pairwise_cons.mp sorted.2.1).1 next List.mem_cons_self
    omega

/-- Around a location, the loops around one of its loops are those outside of it. -/
theorem enclosing_eq_take {loc i head : Nat}
    (found : ((Flow.ofBody body).enclosing loc)[i]? = some head) :
    (Flow.ofBody body).enclosing head = ((Flow.ofBody body).enclosing loc).take (i + 1) := by
  obtain ⟨isHead, within⟩ := accepted.mem_enclosing.mp (List.mem_of_getElem? found)
  obtain ⟨front, chain⟩ := accepted.enclosing_concat isHead
  have start := accepted.enclosing_isPrefix isHead within
  have here : ((Flow.ofBody body).enclosing loc)[front.length]? = some head := by
    obtain ⟨rest, split⟩ := start
    rw [← split, chain]
    simp
  have position : front.length = i := by
    have nodup := Flow.enclosing_nodup (Flow.ofBody body) loc
    obtain ⟨bound, first⟩ := List.getElem?_eq_some_iff.mp here
    obtain ⟨bound', second⟩ := List.getElem?_eq_some_iff.mp found
    exact (List.Nodup.getElem_inj_iff nodup).mp (first.trans second.symm)
  rw [List.prefix_iff_eq_take.mp start, chain]
  simp [position]

/-- A loop stands at the same place around all locations in its extent. -/
theorem getElem?_enclosing_of_inExtent {loc other i head : Nat}
    (found : ((Flow.ofBody body).enclosing loc)[i]? = some head)
    (within : (Flow.ofBody body).inExtent head other = true) :
    ((Flow.ofBody body).enclosing other)[i]? = some head := by
  have isHead := (accepted.mem_enclosing.mp (List.mem_of_getElem? found)).1
  obtain ⟨rest, split⟩ := accepted.enclosing_isPrefix isHead within
  have own : ((Flow.ofBody body).enclosing head)[i]? = some head := by
    rw [accepted.enclosing_eq_take found, List.getElem?_take_of_succ, found]
  rw [← split, List.getElem?_append_left (List.getElem?_eq_some_iff.mp own).1, own]

/-- Loops around one location at the same depth are the same. -/
theorem eq_of_depth_eq {head other loc : Nat} (isHead : (Flow.ofBody body).isHead head = true)
    (isOther : (Flow.ofBody body).isHead other = true)
    (within : (Flow.ofBody body).inExtent head loc = true)
    (within' : (Flow.ofBody body).inExtent other loc = true)
    (depths : (Flow.ofBody body).depth head = (Flow.ofBody body).depth other) : head = other := by
  have first := List.prefix_iff_eq_take.mp (accepted.enclosing_isPrefix isHead within)
  have second := List.prefix_iff_eq_take.mp (accepted.enclosing_isPrefix isOther within')
  obtain ⟨front, chain⟩ := accepted.enclosing_concat isHead
  obtain ⟨front', chain'⟩ := accepted.enclosing_concat isOther
  have same : front ++ [head] = front' ++ [other] := by
    rw [← chain, ← chain', first, second]
    exact congrArg (fun n => List.take n _) depths
  exact (List.append_singleton_inj.mp same).2

theorem depth_le_of_inExtent {head loc : Nat} (isHead : (Flow.ofBody body).isHead head = true)
    (within : (Flow.ofBody body).inExtent head loc = true) :
    (Flow.ofBody body).depth head ≤ (Flow.ofBody body).depth loc :=
  (accepted.enclosing_isPrefix isHead within).length_le

theorem enclosing_of_standsAlone {head loc : Nat} (alone : (Flow.ofBody body).StandsAlone head)
    (within : (Flow.ofBody body).inExtent head loc = true) :
    (Flow.ofBody body).enclosing loc = [head] := by
  have only : ∀ other ∈ (Flow.ofBody body).enclosing loc, other = head := fun other member =>
    alone.eq_of_inExtent (accepted.mem_enclosing.mp member).1 within
      (accepted.mem_enclosing.mp member).2
  have member := accepted.mem_enclosing.mpr ⟨alone.isHead, within⟩
  have nodup := Flow.enclosing_nodup (Flow.ofBody body) loc
  rw [List.eq_replicate_of_mem only] at nodup member ⊢
  have one := List.nodup_replicate.mp nodup
  have nonempty := List.ne_nil_of_mem member
  rw [Ne, List.replicate_eq_nil_iff] at nonempty
  rw [show ((Flow.ofBody body).enclosing loc).length = 1 by omega]
  rfl

end Accepted

end TemplateAnalysis
