import TemplateAnalysis.Proofs.Ssa.Exactness

/-! # Passes through a loop

An execution that starts at the head of a loop passes through the loop until it leaves it. Suppose
that there is an assignment for each pass in which the definitions of the loop hold, and that at the
head the assignment of a pass continues what the one before has left over the back edges. If the
loop contains no other one, these assignments describe the execution pass by pass: guards say which
locations are reached in the pass, and versions have the values of the objects there.
-/

namespace TemplateAnalysis

/-- An execution from the head of a loop arrives at a configuration, after the given number of
returns to the head. The choices may depend on this number. -/
inductive Passes (body : List Instruction) (table : SymbolTable) (head : Nat)
    (choices : Nat → Nat → Choices) (start : Assignment) : Nat → Configuration → Prop
  | entry : Passes body table head choices start 0 ⟨head, start⟩
  | onward {pass : Nat} {source target : Configuration}
      (run : Passes body table head choices start pass source)
      (taken : Step body table (choices pass source.loc) source target)
      (apart : target.loc ≠ head) : Passes body table head choices start pass target
  | again {pass : Nat} {source target : Configuration}
      (run : Passes body table head choices start pass source)
      (taken : Step body table (choices pass source.loc) source target)
      (closes : target.loc = head) : Passes body table head choices start (pass + 1) target

namespace Frame

/-- Assignments for the passes through a loop up to a last one. -/
structure Continues (frame : Frame) (head : Nat) (passes : Nat → Assignment) (last : Nat) :
    Prop where
  arrival : ∀ pass ≤ last, ∀ loc, head < loc → loc ≤ frame.flow.extentEnd head →
    (passes pass).Solves (frame.arrivalEqualities loc)
  performs : ∀ pass ≤ last, ∀ loc instruction, head ≤ loc → loc ≤ frame.flow.extentEnd head →
    frame.body[loc]? = some instruction →
    (passes pass).Solves (frame.effectEqualities loc instruction)
  /-- the head is reached again over the back edges that were taken -/
  returned : ∀ pass < last, (passes (pass + 1)).truth (Name.guard head).bool =
    (frame.flow.backEdges head).any fun b => frame.takes (passes pass) b head
  /-- merged objects have the values that the first of these back edges brings -/
  merged : ∀ pass < last, ∀ earlier b later, frame.flow.backEdges head = earlier ++ b :: later →
    (∀ a ∈ earlier, frame.takes (passes pass) a head = false) →
    frame.takes (passes pass) b head = true → ∀ object ∈ frame.mergedObjects head,
      frame.valueBefore (passes (pass + 1)) head object = frame.valueAfter (passes pass) b object
  /-- what is not merged at the head is shared by all passes -/
  shared : ∀ pass ≤ last, ∀ object ∈ frame.objects,
    frame.definitionBefore head object ≠ .merged head →
    frame.valueBefore (passes pass) head object = frame.valueBefore (passes 0) head object

/-- The assignment of a pass arrives at a configuration in the loop. No back edge before it was
taken, and what the loop does not assign has the value it had when the loop was entered. -/
structure InPass (frame : Frame) (head : Nat) (first m : Assignment)
    (configuration : Configuration) : Prop extends frame.Arrives head m configuration where
  within : frame.flow.inExtent head configuration.loc = true
  notReturned : ∀ b ∈ frame.flow.backEdges head, b < configuration.loc →
    frame.takes m b head = false
  kept : ∀ object ∈ frame.objects, object.name ∉ frame.loopAssigned head →
    frame.valueBefore first head object = configuration.store object

variable {frame : Frame} {table : SymbolTable}

namespace Proper

variable (proper : frame.Proper table) {head : Nat}
  (alone : frame.flow.StandsAlone head) {passes : Nat → Assignment} {last : Nat}
  (continues : frame.Continues head passes last)
include proper alone continues

theorem onward_of_continues {pass : Nat} (le : pass ≤ last) {source : Nat} (after : head ≤ source) :
    frame.Onward (passes pass) head source (frame.flow.extentEnd head) := by
  have fromHead : frame.Onward (passes pass) head head (frame.flow.extentEnd head) := by
    refine ⟨continues.arrival pass le, ?_, ?_, ?_⟩
    · exact fun loc instruction behind =>
        continues.performs pass le loc instruction (Nat.le_of_lt behind)
    · intro loc behind within b isBack
      have isHead := (Flow.isHead_iff _).mpr ⟨b, isBack⟩
      have same := alone.innermost loc isHead
        (Flow.inExtent_iff.mpr ⟨Nat.le_of_lt behind, within⟩)
      omega
    · intro loc behind within pred isPred
      have isHead := alone.isHead
      rw [proper.flow_eq] at isHead isPred within
      obtain ⟨edge, ahead⟩ := Flow.mem_forwardPreds.mp isPred
      exact proper.accepted.entered pred loc head edge ahead isHead behind within
  exact fromHead.mono after

section Step

variable {pass : Nat} {source target : Configuration}
  (inPass : frame.InPass head (passes 0) (passes pass) source)
  (step : Step frame.body table ((passes pass).choicesAt source.loc) source target)
include inPass step

/-- A step that stays in the loop is a step of the same pass. -/
theorem inPass_onward (le : pass ≤ last) (apart : target.loc ≠ head)
    (stays : target.loc ≤ frame.flow.extentEnd head) :
    frame.InPass head (passes 0) (passes pass) target := by
  have arrives := inPass.toArrives
  have chooses : frame.Chooses (passes pass) source.loc _ := chooses_choicesAt source.loc
  obtain ⟨first, within⟩ := Flow.inExtent_iff.mp inPass.within
  have onward := proper.onward_of_continues alone continues le first
  have ahead : source.loc < target.loc := by
    by_contra closes
    rw [proper.flow_eq] at alone
    exact apart (alone.edge_of_inExtent step.edge (proper.flow_eq ▸ inPass.within) (by omega))
  refine ⟨proper.arrives_forward arrives chooses step onward ahead stays,
    Flow.inExtent_iff.mpr (by omega), ?_, ?_⟩
  · intro b isBack before
    rcases Nat.lt_or_ge b source.loc with earlier | later
    · exact inPass.notReturned b isBack earlier
    · refine proper.not_taken arrives chooses step onward (proper.mem_backEdges.mp isBack).1 later
        (by omega) (.inr before) ?_
      rintro ⟨⟩
      exact apart rfl
  · intro object isObject free
    rw [inPass.kept object isObject free]
    exact (proper.store_step_of_not_assigned arrives chooses step first within isObject free).symm

/-- A step to the head starts the next pass. -/
theorem inPass_again (lt : pass < last) (closes : target.loc = head) :
    frame.InPass head (passes 0) (passes (pass + 1)) target := by
  obtain ⟨loc, store⟩ := target
  obtain rfl : loc = head := closes
  have arrives := inPass.toArrives
  have chooses : frame.Chooses (passes pass) source.loc _ := chooses_choicesAt source.loc
  obtain ⟨first, within⟩ := Flow.inExtent_iff.mp inPass.within
  have onward := proper.onward_of_continues alone continues (Nat.le_of_lt lt) first
  have inside := proper.accepted.edge_lt step.edge
  have isBack := proper.mem_backEdges.mpr ⟨step.edge, first⟩
  have taken := (proper.takes_step arrives chooses step step.edge).mpr rfl
  -- the pass has taken no other back edge
  have only : ∀ a ∈ frame.flow.backEdges loc, a ≠ source.loc →
      frame.takes (passes pass) a loc = false := by
    intro a isOther apart
    rcases Nat.lt_or_ge a source.loc with earlier | later
    · exact inPass.notReturned a isOther earlier
    · refine proper.not_taken arrives chooses step onward (proper.mem_backEdges.mp isOther).1 later
        (Flow.le_extentEnd isOther) (.inl first) ?_
      rintro ⟨⟩
      exact apart rfl
  have unassigned : ∀ object ∈ frame.objects, object.name ∉ frame.loopAssigned loc →
      frame.valueBefore (passes 0) loc object = store object := by
    intro object isObject free
    rw [inPass.kept object isObject free]
    exact (proper.store_step_of_not_assigned arrives chooses step first within isObject free).symm
  have self := proper.inExtent_self alone.isHead
  refine ⟨⟨inside, fun instruction => ?_, ?_, ?_, ?_⟩, self, ?_, unassigned⟩
  · exact continues.performs (pass + 1) lt loc instruction (Nat.le_refl _)
      (Nat.le_trans first within)
  · rw [continues.returned pass lt]
    exact List.any_eq_true.mpr ⟨source.loc, isBack, taken⟩
  · intro object isObject
    by_cases merged : frame.definitionBefore loc object = .merged loc
    · obtain ⟨earlier, later, backs, fresh⟩ := List.eq_append_cons_of_mem isBack
      have isMerged := (proper.mem_mergedObjects inside).mpr ⟨isObject, merged⟩
      rw [continues.merged pass lt earlier source.loc later backs ?_ taken object isMerged]
      · exact proper.store_step arrives chooses step isObject
      · intro a isEarlier
        refine only a (backs ▸ List.mem_append_left _ isEarlier) ?_
        rintro rfl
        exact fresh isEarlier
    · rw [continues.shared (pass + 1) lt object isObject merged]
      exact unassigned object isObject
        (proper.not_mem_loopAssigned inside alone.isHead isObject merged)
  · intro pred next _ above before _
    exact absurd before (Nat.not_lt.mpr above)
  · intro b isBack before
    exact absurd before (Nat.not_lt.mpr (proper.mem_backEdges.mp isBack).2)

end Step

variable {start : Assignment}
  (reads : ∀ object ∈ frame.objects, frame.valueBefore (passes 0) head object = start object)
include reads

/-- While the execution is in the loop, the assignment of its pass arrives where it is. Once it has
left the loop it does not come back. -/
theorem inPass_of_passes (reached : (passes 0).truth (Name.guard head).bool = true) {pass : Nat}
    {configuration : Configuration} (le : pass ≤ last)
    (run : Passes frame.body table head (fun pass => (passes pass).choicesAt) start pass
      configuration) :
    frame.InPass head (passes 0) (passes pass) configuration ∨
      frame.flow.extentEnd head < configuration.loc := by
  have alone' := proper.flow_eq ▸ alone
  have beyond : ∀ {source target : Configuration} {c : Choices},
      frame.flow.extentEnd head < source.loc → Step frame.body table c source target →
      frame.flow.extentEnd head < target.loc := by
    intro source target c behind step
    rw [proper.flow_eq] at behind ⊢
    exact alone'.edge_of_extentEnd_lt step.edge behind
  have bounds := proper.extentEnd_lt alone.isHead
  induction run with
  | entry =>
    refine .inl ⟨⟨?_, fun instruction => ?_, reached, reads, ?_⟩, ?_, ?_, ?_⟩
    · exact Nat.lt_of_le_of_lt bounds.1 bounds.2
    · exact continues.performs 0 le head instruction (Nat.le_refl _) bounds.1
    · intro pred next _ above before _
      exact absurd before (Nat.not_lt.mpr above)
    · exact proper.inExtent_self alone.isHead
    · intro b isBack before
      exact absurd before (Nat.not_lt.mpr (proper.mem_backEdges.mp isBack).2)
    · exact fun object isObject _ => reads object isObject
  | @onward pass source target run taken apart ih =>
    rcases ih le with inPass | behind
    · rcases Nat.lt_or_ge (frame.flow.extentEnd head) target.loc with leaves | stays
      · exact .inr leaves
      · exact .inl (proper.inPass_onward alone continues inPass taken le apart stays)
    · exact .inr (beyond behind taken)
  | @again pass source target run taken closes ih =>
    rcases ih (Nat.le_of_lt le) with inPass | behind
    · exact .inl (proper.inPass_again alone continues inPass taken le closes)
    · have after := beyond behind taken
      omega

/-- The edge that the assignment of a pass takes from a location is the one of the execution. -/
theorem exists_step_of_takes (reached : (passes 0).truth (Name.guard head).bool = true)
    {pass : Nat} (le : pass ≤ last) {source : Configuration}
    (within : source.loc ≤ frame.flow.extentEnd head)
    (run : Passes frame.body table head (fun pass => (passes pass).choicesAt) start pass source)
    {next : Nat} (edge : (source.loc, next) ∈ Flow.edges frame.body)
    (taken : frame.takes (passes pass) source.loc next = true) :
    ∃ store, Step frame.body table ((passes pass).choicesAt source.loc) source ⟨next, store⟩ := by
  have inPass : frame.InPass head (passes 0) (passes pass) source := by
    rcases proper.inPass_of_passes alone continues reads reached le run with inPass | behind
    · exact inPass
    · omega
  obtain ⟨instruction, here, isNext⟩ := Flow.mem_edges.mp edge
  have goes := (proper.takes_iff here inPass.reads (chooses_choicesAt source.loc)
    (inPass.performs instruction here) inPass.reached isNext).mp taken
  exact ⟨_, .perform here goes⟩

/-- If the head is reached in a pass, so is every location whose guard is true. -/
theorem exists_passes_onward {pass : Nat} (le : pass ≤ last)
    (atHead : (passes pass).truth (Name.guard head).bool = true →
      (passes 0).truth (Name.guard head).bool = true ∧ ∃ store, Passes frame.body table head
        (fun pass => (passes pass).choicesAt) start pass ⟨head, store⟩) {loc : Nat}
    (within : frame.flow.inExtent head loc = true)
    (guard : (passes pass).truth (Name.guard loc).bool = true) :
    (passes 0).truth (Name.guard head).bool = true ∧ ∃ store, Passes frame.body table head
      (fun pass => (passes pass).choicesAt) start pass ⟨loc, store⟩ := by
  have onward := proper.onward_of_continues alone continues le (Nat.le_refl head)
  induction loc using Nat.strongRecOn with
  | ind loc ih =>
    obtain ⟨first, upTo⟩ := Flow.inExtent_iff.mp within
    rcases Nat.eq_or_lt_of_le first with rfl | behind
    · exact atHead guard
    · rw [proper.guard_truth (onward.arrival loc behind upTo), Bool.or_eq_true,
        Bool.or_eq_true] at guard
      rcases guard with (isEntry | forward) | back
      · have entry := of_decide_eq_true isEntry
        omega
      · -- the location follows one that is reached in the pass
        obtain ⟨pred, isPred, taken⟩ := List.any_eq_true.mp forward
        have above := onward.entered loc behind upTo pred isPred
        rw [proper.flow_eq] at isPred
        obtain ⟨edge, ahead⟩ := Flow.mem_forwardPreds.mp isPred
        obtain ⟨reached, store, run⟩ := ih pred ahead (Flow.inExtent_iff.mpr (by omega))
          (guard_of_takes edge taken)
        have before : pred ≤ frame.flow.extentEnd head := by omega
        obtain ⟨store', step⟩ := proper.exists_step_of_takes alone continues reads reached le before
          run edge taken
        exact ⟨reached, store', .onward run step (by dsimp only; omega)⟩
      · obtain ⟨b, isBack, selected⟩ := List.any_eq_true.mp back
        rw [onward.noBack loc behind upTo b isBack] at selected
        cases selected

/-- A location whose guard is true in the assignment of a pass is reached in this pass. -/
theorem exists_passes_of_guard {pass : Nat} (le : pass ≤ last) {loc : Nat}
    (within : frame.flow.inExtent head loc = true)
    (guard : (passes pass).truth (Name.guard loc).bool = true) :
    (passes 0).truth (Name.guard head).bool = true ∧ ∃ store, Passes frame.body table head
      (fun pass => (passes pass).choicesAt) start pass ⟨loc, store⟩ := by
  induction pass generalizing loc with
  | zero =>
    refine proper.exists_passes_onward alone continues reads le (fun reached => ?_) within guard
    exact ⟨reached, start, .entry⟩
  | succ pass ih =>
    refine proper.exists_passes_onward alone continues reads le (fun returned => ?_) within guard
    -- the pass before has taken a back edge
    rw [continues.returned pass le, List.any_eq_true] at returned
    obtain ⟨b, isBack, taken⟩ := returned
    have before := Flow.le_extentEnd isBack
    obtain ⟨edge, closes⟩ := proper.mem_backEdges.mp isBack
    obtain ⟨reached, store, run⟩ := ih (Nat.le_of_lt le) (Flow.inExtent_iff.mpr ⟨closes, before⟩)
      (guard_of_takes edge taken)
    obtain ⟨store', step⟩ := proper.exists_step_of_takes alone continues reads reached
      (Nat.le_of_lt le) before run edge taken
    exact ⟨reached, store', .again run step rfl⟩

end Proper

end Frame

end TemplateAnalysis
