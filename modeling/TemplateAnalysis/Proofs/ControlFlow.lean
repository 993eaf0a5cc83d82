import TemplateAnalysis.ControlFlow
import TemplateAnalysis.Proofs.Execution

/-! # Edges, loops and steps

What the accepted control flow of a body says: every edge stays inside the body, a location is the
source of at most one back edge, extents of loop heads nest, and an extent is entered through its
head. A step of an execution follows an edge.
-/

namespace TemplateAnalysis

namespace Instruction

/-- A jump goes to its target, a return to the last location, and all else to the next. -/
theorem successors_cases {last loc next : Nat} {instruction : Instruction}
    (goes : next ∈ instruction.successors last loc) :
    (∃ condition, instruction = .goto condition next) ∨
      ((∃ value, instruction = .ret value) ∧ next = last) ∨
      (instruction ≠ .endFunction ∧ next = loc + 1) := by
  cases instruction with
  | goto condition target =>
    simp only [successors] at goes
    split at goes
    · obtain rfl := List.mem_singleton.mp goes
      exact .inl ⟨condition, rfl⟩
    · split at goes
      · exact .inr (.inr ⟨nofun, List.mem_singleton.mp goes⟩)
      · split at goes
        · obtain rfl := List.mem_singleton.mp goes
          exact .inl ⟨condition, rfl⟩
        · rcases (by simpa using goes : next = target ∨ next = loc + 1) with rfl | ahead
          · exact .inl ⟨condition, rfl⟩
          · exact .inr (.inr ⟨nofun, ahead⟩)
  | ret value => exact .inr (.inl ⟨⟨value, rfl⟩, List.mem_singleton.mp goes⟩)
  | endFunction => exact absurd goes List.not_mem_nil
  | _ => exact .inr (.inr ⟨nofun, List.mem_singleton.mp goes⟩)

end Instruction

namespace Flow

variable {body : List Instruction} {loc next head b : Nat}

/-- The locations of a body increase. -/
theorem zipIdx_pairwise {α : Type} (entries : List α) :
    entries.zipIdx.Pairwise fun first second => first.2 < second.2 := by
  have locs := List.pairwise_lt_range' (s := 0) (n := entries.length)
  rw [← List.zipIdx_map_snd, List.pairwise_map] at locs
  exact locs

theorem mem_edges : (loc, next) ∈ edges body ↔ ∃ instruction, body[loc]? = some instruction ∧
    next ∈ instruction.successors (body.length - 1) loc := by
  simp only [edges, List.mem_flatMap, List.mem_map, Prod.mk.injEq, Prod.exists,
    List.mem_zipIdx_iff_getElem?]
  constructor
  · rintro ⟨instruction, _, here, succ, goes, rfl, rfl⟩
    exact ⟨instruction, here, goes⟩
  · rintro ⟨instruction, here, goes⟩
    exact ⟨instruction, loc, here, next, goes, rfl, rfl⟩

theorem mem_forward :
    (loc, next) ∈ (ofBody body).forward ↔ (loc, next) ∈ edges body ∧ loc < next := by
  simp [ofBody]

theorem mem_forwardPreds :
    loc ∈ (ofBody body).forwardPreds next ↔ (loc, next) ∈ edges body ∧ loc < next := by
  simp only [forwardPreds, List.mem_map, List.mem_filter, beq_iff_eq, Prod.exists, mem_forward]
  constructor
  · rintro ⟨p, x, ⟨edge, rfl⟩, rfl⟩
    exact edge
  · intro edge
    exact ⟨loc, next, ⟨edge, rfl⟩, rfl⟩

theorem mem_backEdges :
    b ∈ (ofBody body).backEdges head ↔ (b, head) ∈ edges body ∧ head ≤ b := by
  simp only [backEdges, ofBody, List.mem_map, List.mem_filter, Prod.exists, beq_iff_eq,
    decide_eq_true_eq]
  constructor
  · rintro ⟨loop, ⟨⟨source, target, ⟨edge, closes⟩, rfl⟩, rfl⟩, rfl⟩
    exact ⟨edge, closes⟩
  · rintro ⟨edge, closes⟩
    exact ⟨⟨head, b⟩, ⟨⟨b, head, ⟨edge, closes⟩, rfl⟩, rfl⟩, rfl⟩

theorem mem_loops {flow : Flow} {loop : Loop} :
    loop ∈ flow.loops ↔ loop.backEdge ∈ flow.backEdges loop.head := by
  simp only [backEdges, List.mem_map, List.mem_filter, beq_iff_eq]
  constructor
  · exact fun isLoop => ⟨loop, ⟨isLoop, rfl⟩, rfl⟩
  · rintro ⟨other, ⟨isLoop, sameHead⟩, sameEdge⟩
    obtain rfl : other = loop := by
      cases other
      cases loop
      simp_all
    exact isLoop

theorem isHead_iff (flow : Flow) : flow.isHead head = true ↔ ∃ b, b ∈ flow.backEdges head := by
  simp only [isHead, List.any_eq_true, beq_iff_eq, backEdges, List.mem_map, List.mem_filter]
  constructor
  · rintro ⟨loop, member, same⟩
    exact ⟨loop.backEdge, loop, ⟨member, same⟩, rfl⟩
  · rintro ⟨b, loop, ⟨member, same⟩, -⟩
    exact ⟨loop, member, same⟩

private theorem le_foldl_max (bs : List Nat) (start : Nat) :
    start ≤ bs.foldl max start ∧ ∀ b ∈ bs, b ≤ bs.foldl max start := by
  induction bs generalizing start with
  | nil => simp
  | cons b bs ih =>
    obtain ⟨low, rest⟩ := ih (max start b)
    simp only [List.foldl_cons, List.mem_cons]
    refine ⟨by omega, ?_⟩
    rintro c (rfl | member)
    · omega
    · exact rest c member

theorem le_extentEnd {flow : Flow} (member : b ∈ flow.backEdges head) :
    b ≤ flow.extentEnd head := (le_foldl_max (flow.backEdges head) 0).2 b member

/-- A location is the source of at most one back edge. -/
theorem head_unique {other : Nat} (first : b ∈ (ofBody body).backEdges head)
    (second : b ∈ (ofBody body).backEdges other) : head = other := by
  obtain ⟨edge, closes⟩ := mem_backEdges.mp first
  obtain ⟨edge', closes'⟩ := mem_backEdges.mp second
  obtain ⟨instruction, here, goes⟩ := mem_edges.mp edge
  obtain ⟨instruction', here', goes'⟩ := mem_edges.mp edge'
  obtain rfl : instruction = instruction' := Option.some.inj (here.symm.trans here')
  rcases Instruction.successors_cases goes with ⟨condition, rfl⟩ | ⟨⟨value, rfl⟩, rfl⟩ | ⟨-, ahead⟩
  · rcases Instruction.successors_cases goes' with ⟨_, same⟩ | ⟨⟨_, same⟩, -⟩ | ⟨-, ahead⟩
    · exact (Instruction.goto.inj same).2
    · cases same
    · omega
  · exact (List.mem_singleton.mp goes').symm
  · omega

end Flow

/-- What is known about a body whose instructions and loops are accepted. -/
structure Accepted (body : List Instruction) : Prop where
  ends : body.getLast? = some .endFunction
  targets : ∀ (loc : Nat) condition target, body[loc]? = some (.goto condition target) →
    target < body.length
  supported : ∀ (loc : Nat) what, body[loc]? ≠ some (.other what)
  nested : ∀ outer inner, (Flow.ofBody body).isHead outer = true →
    (Flow.ofBody body).isHead inner = true → outer < inner →
    inner ≤ (Flow.ofBody body).extentEnd outer →
    (Flow.ofBody body).extentEnd inner ≤ (Flow.ofBody body).extentEnd outer
  entered : ∀ loc next head, (loc, next) ∈ Flow.edges body → loc < next →
    (Flow.ofBody body).isHead head = true → head < next →
    next ≤ (Flow.ofBody body).extentEnd head → head ≤ loc

namespace Accepted

variable {body : List Instruction}

private theorem last_of_ends (ends : body.getLast? = some .endFunction) :
    body[body.length - 1]? = some .endFunction := by
  rw [← List.getLast?_eq_getElem?]
  exact ends

private theorem edge_lt_of_targets (ends : body.getLast? = some .endFunction)
    (targets : ∀ (loc : Nat) condition target, body[loc]? = some (.goto condition target) →
      target < body.length)
    {loc next : Nat} (edge : (loc, next) ∈ Flow.edges body) : next < body.length := by
  obtain ⟨instruction, here, goes⟩ := Flow.mem_edges.mp edge
  obtain ⟨inside, -⟩ := List.getElem?_eq_some_iff.mp here
  rcases Instruction.successors_cases goes with ⟨condition, rfl⟩ | ⟨-, rfl⟩ | ⟨notEnd, rfl⟩
  · exact targets loc condition next here
  · omega
  · have notLast : loc ≠ body.length - 1 := by
      rintro rfl
      rw [last_of_ends ends] at here
      exact notEnd (Option.some.inj here).symm
    omega

/-- The end of the body stands at its last location. -/
theorem last_instruction (accepted : Accepted body) :
    body[body.length - 1]? = some .endFunction := last_of_ends accepted.ends

theorem length_pos (accepted : Accepted body) : 0 < body.length := by
  obtain ⟨inside, -⟩ := List.getElem?_eq_some_iff.mp accepted.last_instruction
  omega

/-- Edges stay inside the body. -/
theorem edge_lt (accepted : Accepted body) {loc next : Nat}
    (edge : (loc, next) ∈ Flow.edges body) : next < body.length :=
  edge_lt_of_targets accepted.ends accepted.targets edge

theorem source_lt {loc next : Nat} (edge : (loc, next) ∈ Flow.edges body) : loc < body.length := by
  obtain ⟨instruction, here, -⟩ := Flow.mem_edges.mp edge
  exact (List.getElem?_eq_some_iff.mp here).1

/-- Nothing leads away from the end of the body. -/
theorem source_lt_last (accepted : Accepted body) {loc next : Nat}
    (edge : (loc, next) ∈ Flow.edges body) : loc < body.length - 1 := by
  obtain ⟨instruction, here, goes⟩ := Flow.mem_edges.mp edge
  have inside := (List.getElem?_eq_some_iff.mp here).1
  have notLast : loc ≠ body.length - 1 := by
    rintro rfl
    cases here.symm.trans accepted.last_instruction
    cases goes
  omega

/-- A body is accepted if nothing in it is refused. -/
private theorem of_nothing_refused (ends : body.getLast? = some .endFunction)
    (refused : firstRefused body = none) (overlap : (Flow.ofBody body).overlap? = none)
    (sideEntry : Flow.sideEntry? (Flow.ofBody body) = none) : Accepted body := by
  simp only [firstRefused, List.findSome?_eq_none_iff, Prod.forall,
    List.mem_zipIdx_iff_getElem?] at refused
  have targets : ∀ (loc : Nat) condition target, body[loc]? = some (.goto condition target) →
      target < body.length := by
    intro loc condition target here
    have inside := refused _ _ here
    simp only [ite_eq_right_iff, reduceCtorEq, imp_false] at inside
    omega
  -- heads are searched among the locations of the body, which is where all of them are
  have heads : ∀ head, (Flow.ofBody body).isHead head = true →
      head ∈ (Flow.ofBody body).heads := by
    intro head isHead
    obtain ⟨b, member⟩ := (Flow.isHead_iff _).mp isHead
    have bound := edge_lt_of_targets ends targets (Flow.mem_backEdges.mp member).1
    exact List.mem_filter.mpr ⟨List.mem_range.mpr bound, isHead⟩
  simp only [Flow.overlap?, List.findSome?_eq_none_iff, ite_eq_right_iff, reduceCtorEq,
    imp_false] at overlap
  simp only [Flow.sideEntry?, List.findSome?_eq_none_iff, ite_eq_right_iff, reduceCtorEq,
    imp_false, Prod.forall, Flow.mem_forward, Flow.inExtent, Bool.and_eq_true,
    decide_eq_true_eq] at sideEntry
  refine ⟨ends, targets, ?_, ?_, ?_⟩
  · intro loc what here
    cases refused _ _ here
  · intro outer inner isOuter isInner before within
    have apart := overlap outer (heads outer isOuter) inner (heads inner isInner)
    omega
  · intro loc next head edge ahead isHead before within
    have inside := sideEntry loc next ⟨edge, ahead⟩ head (heads head isHead)
    omega

end Accepted

/-- Only bodies with proper ends, jumps and loops pass the check. -/
theorem Flow.accepted_of_check {body : List Instruction} {flow : Flow}
    (checked : Flow.check body = .ok flow) : flow = Flow.ofBody body ∧ Accepted body := by
  unfold Flow.check at checked
  split at checked
  · cases checked
  · next last ends =>
    split at checked
    · cases checked
    · next isEnd =>
      obtain rfl : last = .endFunction := Decidable.not_not.mp isEnd
      split at checked
      · cases checked
      · next refused =>
        dsimp only at checked
        split at checked
        · cases checked
        · cases checked
        · next overlap sideEntry =>
          have same := (Except.ok.inj checked).symm
          exact ⟨same, .of_nothing_refused ends refused overlap sideEntry⟩

theorem Expr.eq_true_of_isTrue {e : Expr} (constant : e.isTrue = true) : e = .bool true := by
  cases e <;> simp_all [isTrue]

theorem Expr.eq_false_of_isFalse {e : Expr} (constant : e.isFalse = true) : e = .bool false := by
  cases e <;> simp_all [isFalse]

namespace Instruction

variable {last loc next : Nat} {c : Choices} {store : Assignment} {condition : Expr}

theorem next?_goto {target : Nat} :
    (goto condition target).next? last loc c store = some next ↔
      ∃ t, condition.valueIn store c = some (.bool t) ∧ next = if t then target else loc + 1 := by
  simp only [next?]
  constructor
  · intro goes
    split at goes
    · next value => exact ⟨true, value, by simpa using goes.symm⟩
    · next value => exact ⟨false, value, by simpa using goes.symm⟩
    · cases goes
  · rintro ⟨t, value, rfl⟩
    rw [value]
    cases t <;> rfl

theorem next?_assume : (assume condition).next? last loc c store = some next ↔
    condition.valueIn store c = some (.bool true) ∧ next = loc + 1 := by
  simp only [next?, Option.ite_none_right_eq_some, Option.some.injEq, eq_comm (a := loc + 1)]

/-- Control goes to a successor. -/
theorem mem_successors_of_next? {instruction : Instruction}
    (goes : instruction.next? last loc c store = some next) :
    next ∈ instruction.successors last loc := by
  cases instruction with
  | goto condition target =>
    obtain ⟨t, value, rfl⟩ := next?_goto.mp goes
    simp only [successors]
    split
    · next constant =>
      rw [Expr.eq_true_of_isTrue constant] at value
      cases value
      exact List.mem_singleton_self _
    · split
      · next constant =>
        rw [Expr.eq_false_of_isFalse constant] at value
        cases value
        exact List.mem_singleton_self _
      · split
        · next beside => cases t <;> simp [beside]
        · cases t <;> simp
  | assume condition =>
    obtain ⟨-, rfl⟩ := next?_assume.mp goes
    exact List.mem_singleton_self _
  | endFunction => cases goes
  | other what => cases goes
  | _ =>
    cases goes
    exact List.mem_singleton_self _

end Instruction

/-- A step follows an edge. -/
theorem Step.edge {body : List Instruction} {table : SymbolTable} {c : Choices}
    {source target : Configuration} (step : Step body table c source target) :
    (source.loc, target.loc) ∈ Flow.edges body := by
  obtain ⟨here, goes⟩ := step
  exact Flow.mem_edges.mpr ⟨_, here, Instruction.mem_successors_of_next? goes⟩

end TemplateAnalysis
