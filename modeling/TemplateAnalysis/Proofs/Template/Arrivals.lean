import TemplateAnalysis.Proofs.Nesting
import TemplateAnalysis.Proofs.Ssa.OverApproximation
import TemplateAnalysis.Proofs.Template.Observations

/-! # What a loop is entered with

A template that observes a loop takes what arrives over the back edge for the values with which the
next pass starts, wherever the head is reached and the back edge is selected. The literals that
select back edges are free, and of several selected ones the first decides. So the first back edge
of a head is observed as it is meant, and a later one only in models that select none before it:
with two back edges there is a model in which the second is selected, and the pass starts with the
values that arrive over the first.
-/

namespace TemplateAnalysis

/-- A value of a sort that is not the default. -/
def ValueSort.unusual : ValueSort → Value
  | .bool => .bool true
  | .int => .int 1

/-- The assignment in which no symbol has its default value. -/
def Assignment.unusual : Assignment where
  value s := s.sort.unusual
  sorted s := by cases s.sort <;> rfl

theorem Assignment.unusual_ne_default (s : Symbol) :
    Assignment.unusual s ≠ (default : Assignment) s := by
  change s.sort.unusual ≠ s.sort.default
  cases s.sort <;> decide

namespace Frame.Proper

variable {frame : Frame} {table : SymbolTable} (proper : frame.Proper table)
include proper

/-- Which back edges are selected and what arrives over them is free. -/
theorem exists_selecting (selects : Nat → Bool) (arriving : Nat → Assignment) :
    ∃ m : Assignment, m.Solves frame.equalities ∧
      (∀ b, m.truth (loopSelect b) = selects b) ∧
      ∀ b, ∀ object ∈ frame.objects, m (loopBack object b) = arriving b object := by
  let chosen := Assignment.ofChoices default selects arriving
  have kept : ∀ s, frame.IsFree s → chosen.define frame.equalities s = chosen s := fun s free =>
    Assignment.define_of_not_defined free
  refine ⟨chosen.define frame.equalities, chosen.solves_define proper.ordered, ?_, ?_⟩
  · intro b
    have isFree : frame.IsFree (loopSelect b) :=
      proper.isFree_of_isOpen (Name.isProper_of_none rfl) rfl .bool
    rw [Assignment.truth, kept _ isFree, Assignment.ofChoices_loopSelect]
    cases selects b <;> rfl
  · intro b object isObject
    have isProper := proper.back_isProper isObject b
    have isFree := proper.isFree_of_isOpen isProper rfl object.sort
    exact (kept _ isFree).trans (Assignment.ofChoices_loopBack default selects arriving isProper)

theorem backEdges_pairwise (head : Nat) : (frame.flow.backEdges head).Pairwise (· < ·) := by
  rw [proper.flow_eq]
  exact Flow.backEdges_pairwise frame.body head

variable {loop : Loop} (isBack : loop.backEdge ∈ frame.flow.backEdges loop.head)
include isBack

/-- Where a back edge is selected, the pass starts with what arrives over the first selected one. -/
theorem exists_first_selected {m : Assignment} (solves : m.Solves frame.equalities)
    (selected : m.truth (loopSelect loop.backEdge) = true) :
    ∃ b ∈ frame.flow.backEdges loop.head, b ≤ loop.backEdge ∧
      m.truth (loopSelect b) = true ∧
      (∀ c ∈ frame.flow.backEdges loop.head, c < b → m.truth (loopSelect c) = false) ∧
      ∀ object ∈ frame.mergedObjects loop.head,
        m (phi object loop.head) = m (loopBack object b) := by
  have inside := proper.back_edge_inside isBack
  have ordered := proper.backEdges_pairwise loop.head
  obtain ⟨b, found⟩ : ∃ b,
      (frame.flow.backEdges loop.head).find? (fun b => m.truth (loopSelect b)) = some b :=
    Option.isSome_iff_exists.mp (List.find?_isSome.mpr ⟨_, isBack, selected⟩)
  obtain ⟨isSelected, earlier, later, backs, skipped⟩ := List.find?_eq_some_iff_append.mp found
  replace skipped : ∀ c ∈ earlier, m.truth (loopSelect c) = false := by simpa using skipped
  rw [backs, List.pairwise_append, List.pairwise_cons] at ordered
  obtain ⟨-, ⟨behind, -⟩, before⟩ := ordered
  refine ⟨b, by simp [backs], ?_, isSelected, ?_, ?_⟩
  · rw [backs, List.mem_append, List.mem_cons] at isBack
    rcases isBack with among | same | after
    · rw [skipped _ among] at selected
      cases selected
    · exact Nat.le_of_eq same.symm
    · exact Nat.le_of_lt (behind _ after)
  · intro c isEdge lt
    rw [backs, List.mem_append, List.mem_cons] at isEdge
    rcases isEdge with among | rfl | after
    · exact skipped c among
    · exact absurd lt (Nat.lt_irrefl _)
    · exact absurd lt (Nat.lt_asymm (behind c after))
  · intro object isMerged
    exact proper.phi_of_back (solves_arrival solves (by omega)) (by omega) isMerged backs skipped
      isSelected

/-- A back edge with another one before it may be selected where the pass starts with other values
than those that arrive over it. -/
theorem exists_other_arrival {c : Nat} (isOther : c ∈ frame.flow.backEdges loop.head)
    (before : c < loop.backEdge) :
    ∃ m : Assignment, m.Solves frame.equalities ∧
      m.holds (frame.loopGuards loop true).1 = true ∧
      ∀ object ∈ frame.mergedObjects loop.head,
        m (phi object loop.head) ≠ m (loopBack object loop.backEdge) := by
  have inside := proper.back_edge_inside isBack
  obtain ⟨m, solves, selects, arrives⟩ := proper.exists_selecting (fun _ => true)
    fun b => if b = loop.backEdge then Assignment.unusual else default
  refine ⟨m, solves, ?_, fun object isMerged => ?_⟩
  · rw [proper.holds_arriving isBack, proper.guard_truth (solves_arrival solves (by omega)),
      selects, Bool.and_true, Bool.or_eq_true]
    exact .inr (List.any_eq_true.mpr ⟨_, isBack, selects _⟩)
  · -- all back edges are selected, so the first of them is the first selected one
    obtain ⟨b, -, -, -, unselected, merged⟩ :=
      proper.exists_first_selected isBack solves (selects _)
    have apart : b ≠ loop.backEdge := by
      rintro rfl
      have := unselected c isOther before
      rw [selects] at this
      cases this
    have isObject := ((proper.mem_mergedObjects (by omega)).mp isMerged).1
    rw [merged object isMerged, arrives b object isObject, arrives _ object isObject, if_neg apart,
      if_pos rfl]
    exact (Assignment.unusual_ne_default object).symm

end Frame.Proper

namespace Ssa

/-- Where a loop is observed, the pass starts with what arrives over the first selected back edge of
its head. This is what the template takes it for in all models exactly if no other back edge of the
head comes before the observed one, or no object is merged there. -/
theorem arrival_observed_iff {function : String} {procedure : Procedure} {table : SymbolTable}
    {ssa : Ssa} (built : Ssa.build function procedure table = .ok ssa)
    (wellFormed : procedure.WellFormed table) {loop : Loop} (isLoop : loop ∈ ssa.flow.loops) :
    (∀ m : Assignment, m.Satisfies ssa.formulas → m.holds (ssa.loopGuards loop true).1 = true →
      ∃ b ∈ ssa.flow.backEdges loop.head, b ≤ loop.backEdge ∧
        m.truth (loopSelect b) = true ∧
        (∀ c ∈ ssa.flow.backEdges loop.head, c < b → m.truth (loopSelect c) = false) ∧
        ∀ object ∈ ssa.mergedObjects loop.head,
          m (phi object loop.head) = m (loopBack object b)) ∧
    ((∀ m : Assignment, m.Satisfies ssa.formulas → m.holds (ssa.loopGuards loop true).1 = true →
      ∀ object ∈ ssa.mergedObjects loop.head,
        m (phi object loop.head) = m (loopBack object loop.backEdge)) ↔
      (∀ c ∈ ssa.flow.backEdges loop.head, loop.backEdge ≤ c) ∨
        ssa.mergedObjects loop.head = []) := by
  obtain ⟨frame, isFrame, rfl⟩ := Ssa.frame_of_build built
  obtain ⟨proper, -, -⟩ := Frame.proper_of_build isFrame wellFormed
  have isBack : loop.backEdge ∈ frame.flow.backEdges loop.head := Flow.mem_loops.mp isLoop
  simp only [proper.satisfies_iff procedure.params]
  have arrival : ∀ m : Assignment, m.Solves frame.equalities →
      m.holds (frame.loopGuards loop true).1 = true → _ := fun m solves observed => by
    rw [proper.holds_arriving isBack, Bool.and_eq_true] at observed
    exact proper.exists_first_selected isBack solves observed.2
  refine ⟨arrival, fun pinned => ?_, fun only m solves observed object isMerged => ?_⟩
  · by_contra neither
    simp only [not_or, not_forall, Nat.not_le] at neither
    obtain ⟨⟨c, isOther, before⟩, nonempty⟩ := neither
    obtain ⟨object, isMerged⟩ := List.exists_mem_of_ne_nil _ nonempty
    obtain ⟨m, solves, observed, differs⟩ := proper.exists_other_arrival isBack isOther before
    exact differs object isMerged (pinned m solves observed object isMerged)
  · rcases only with first | none
    · obtain ⟨b, isEdge, upTo, -, -, merged⟩ := arrival m solves observed
      obtain rfl := Nat.le_antisymm upTo (first b isEdge)
      exact merged object isMerged
    · rw [none] at isMerged
      cases isMerged

/-- A loop that is closed in two places. -/
def continuing : Procedure where
  params := [⟨"x", .int⟩]
  body := [
    .assign ⟨"x", .int⟩ (.arith .sub (.var ⟨"x", .int⟩) (.int 1)),
    .goto (.nondet .bool) 0,
    .goto (.nondet .bool) 0,
    .endFunction]

private theorem continuing_wellFormed : continuing.WellFormed [] := by
  refine ⟨?_, ?_, ?_⟩ <;> decide

/-- The first of two back edges is observed as it is meant, the second is not. -/
theorem arrival_observed_continuing : ∃ ssa, Ssa.build "f" continuing [] = .ok ssa ∧
    ssa.flow.loops = [⟨0, 1⟩, ⟨0, 2⟩] ∧ ssa.mergedObjects 0 = [⟨"x", .int⟩] ∧
    (∀ m : Assignment, m.Satisfies ssa.formulas →
      m.holds (ssa.loopGuards ⟨0, 1⟩ true).1 = true →
        m (phi ⟨"x", .int⟩ 0) = m (loopBack ⟨"x", .int⟩ 1)) ∧
    ¬ ∀ m : Assignment, m.Satisfies ssa.formulas →
      m.holds (ssa.loopGuards ⟨0, 2⟩ true).1 = true →
        m (phi ⟨"x", .int⟩ 0) = m (loopBack ⟨"x", .int⟩ 2) := by
  obtain ⟨ssa, built, loops, merged, backEdges⟩ : ∃ ssa, Ssa.build "f" continuing [] = .ok ssa ∧
      ssa.flow.loops = [⟨0, 1⟩, ⟨0, 2⟩] ∧ ssa.mergedObjects 0 = [⟨"x", .int⟩] ∧
      ssa.flow.backEdges 0 = [1, 2] := ⟨_, rfl, rfl, rfl, rfl⟩
  have isFirst : (⟨0, 1⟩ : Loop) ∈ ssa.flow.loops := by simp [loops]
  have isSecond : (⟨0, 2⟩ : Loop) ∈ ssa.flow.loops := by simp [loops]
  obtain ⟨-, first⟩ := arrival_observed_iff built continuing_wellFormed isFirst
  obtain ⟨-, second⟩ := arrival_observed_iff built continuing_wellFormed isSecond
  simp only [merged, backEdges, List.forall_mem_singleton] at first second
  refine ⟨ssa, built, loops, merged, first.mpr (by decide), fun pinned => ?_⟩
  exact absurd (second.mp pinned) (by decide)

/-- Where the second of two back edges is observed, the pass may start with something else than what
arrives over it. -/
theorem arrival_differs_continuing : ∃ ssa, Ssa.build "f" continuing [] = .ok ssa ∧
    (⟨0, 2⟩ : Loop) ∈ ssa.flow.loops ∧ (⟨"x", .int⟩ : Symbol) ∈ ssa.mergedObjects 0 ∧
    ∃ m : Assignment, m.Satisfies ssa.formulas ∧
      m.holds (ssa.loopGuards ⟨0, 2⟩ true).1 = true ∧
      m (phi ⟨"x", .int⟩ 0) ≠ m (loopBack ⟨"x", .int⟩ 2) := by
  obtain ⟨ssa, built, isLoop, isMerged, isOther⟩ : ∃ ssa,
      Ssa.build "f" continuing [] = .ok ssa ∧ (⟨0, 2⟩ : Loop) ∈ ssa.flow.loops ∧
      (⟨"x", .int⟩ : Symbol) ∈ ssa.mergedObjects 0 ∧ 1 ∈ ssa.flow.backEdges 0 :=
    ⟨_, rfl, .tail _ (.head _), .head _, .head _⟩
  refine ⟨ssa, built, isLoop, isMerged, ?_⟩
  obtain ⟨frame, isFrame, rfl⟩ := Ssa.frame_of_build built
  obtain ⟨proper, -, -⟩ := Frame.proper_of_build isFrame continuing_wellFormed
  obtain ⟨m, solves, observed, differs⟩ :=
    proper.exists_other_arrival (Flow.mem_loops.mp isLoop) isOther (by decide)
  exact ⟨m, (proper.satisfies_iff _).mpr solves, observed, differs _ isMerged⟩

end Ssa

end TemplateAnalysis
