import TemplateAnalysis.Unwinding
import TemplateAnalysis.Proofs.Ssa.Frame

/-! # Series of unwindings

An unwinding reads nothing of the form that another one changes, and the counts of a series list the
unwindings it has made. So the form after a series is the one it started from, extended by the
copies that the counts tell of. No copy is made twice, before a copy there are its predecessors, and
the copies of outer loops in which it lies are there as well.
-/

namespace TemplateAnalysis

/-- The heads for which a fresh series is called one after the other, and the series and the form
after that. A call for a location that is no head changes nothing. -/
inductive Unwinds (start : Ssa) : List Nat → Unwinder → Ssa → Prop
  | fresh : Unwinds start [] {} start
  | unwound {heads : List Nat} {u u' : Unwinder} {ssa ssa' : Ssa} {head : Nat} {literal : Symbol}
      (run : Unwinds start heads u ssa) (made : u.unwind ssa head = .ok (literal, u', ssa')) :
      Unwinds start (heads ++ [head]) u' ssa'
  | refused {heads : List Nat} {u : Unwinder} {ssa : Ssa} {head : Nat}
      (run : Unwinds start heads u ssa)
      (refusal : u.unwind ssa head = .error (.notALoopHead head)) :
      Unwinds start (heads ++ [head]) u ssa

namespace Copying

variable (copying : Copying)

/-- The unwinding before this one. -/
def previous : Copying :=
  { copying with levels := (Odometer.mk copying.levels).decrement.levels }

theorem levels_previous {copying : Copying} {outer : List Nat} {level : Nat}
    (levels : copying.levels = outer ++ [level + 1]) :
    copying.previous.levels = outer ++ [level] := by
  simp [previous, Odometer.decrement, Odometer.modify, levels]

/-- The literal of the unwinding. -/
def literal : Symbol :=
  (Name.enable copying.head (Odometer.suffixOf copying.levels copying.levels.length)).bool

/-- The nodes of the unwinding, where the first of them stands at the given position. -/
def nodes (first : Nat) : List Node :=
  ((copying.ssa.nodes.drop copying.head).take
    (copying.ssa.flow.extentEnd copying.head + 1 - copying.head)).map
      (copying.node copying.previous copying.literal first)

end Copying

namespace Ssa

variable (base : Ssa)

/-- The nodes with those of some unwindings appended, one after the other. -/
def arena (copies : List Copying) : List Node :=
  copies.foldl (fun nodes copying => nodes ++ copying.nodes nodes.length) base.nodes

/-- The form extended by some unwindings. -/
def extended (copies : List Copying) : Ssa :=
  { base with
    nodes := base.arena copies
    enabling := base.enabling ++ copies.map Copying.literal }

theorem arena_concat (copies : List Copying) (copying : Copying) :
    base.arena (copies ++ [copying]) =
      base.arena copies ++ copying.nodes (base.arena copies).length := by
  simp [arena]

theorem extended_concat (copies : List Copying) (copying : Copying) :
    base.extended (copies ++ [copying]) =
      { base.extended copies with
        nodes := base.arena copies ++ copying.nodes (base.arena copies).length
        enabling := (base.extended copies).enabling ++ [copying.literal] } := by
  simp [extended, arena_concat]

theorem nodes_isPrefix_arena (copies : List Copying) : base.nodes <+: base.arena copies := by
  induction copies using List.reverseRecOn with
  | nil => exact List.prefix_rfl
  | append_singleton copies copying ih =>
    rw [arena_concat]
    exact ih.trans (List.prefix_append _ _)

/-- What nodes hold apart from their positions is, in an extended form, what the first nodes and
the copies hold. -/
theorem flatMap_arena {α : Type} {f : Node → List α}
    (unplaced : ∀ node position, f { node with loopHead := position } = f node)
    (copies : List Copying) : (base.arena copies).flatMap f =
      base.nodes.flatMap f ++ copies.flatMap fun copying => (copying.nodes 0).flatMap f := by
  have anywhere : ∀ (copying : Copying) first,
      (copying.nodes first).flatMap f = (copying.nodes 0).flatMap f := by
    intro copying first
    simp only [Copying.nodes, List.flatMap_map]
    refine congrArg (List.flatMap · _) (funext fun node => ?_)
    exact (unplaced (copying.node _ _ first node) none).symm.trans
      (unplaced (copying.node _ _ 0 node) none)
  induction copies using List.reverseRecOn with
  | nil => simp [arena]
  | append_singleton copies copying ih =>
    rw [arena_concat, List.flatMap_append, ih, anywhere, List.flatMap_append, List.append_assoc]
    simp

/-- The nodes of an extended form are the first ones and those of the copies. -/
theorem mem_arena {copies : List Copying} {node : Node} : node ∈ base.arena copies →
    node ∈ base.nodes ∨ ∃ copying ∈ copies, ∃ first, node ∈ copying.nodes first := by
  induction copies using List.reverseRecOn with
  | nil => exact .inl
  | append_singleton copies copying ih =>
    intro member
    rw [arena_concat, List.mem_append] at member
    rcases member with earlier | here
    · refine (ih earlier).imp_right ?_
      rintro ⟨other, isOther, first, found⟩
      exact ⟨other, List.mem_append_left _ isOther, first, found⟩
    · exact .inr ⟨copying, by simp, _, here⟩

/-- All nodes of a copy are there. -/
theorem exists_nodes_subset_arena {copies : List Copying} {copying : Copying}
    (member : copying ∈ copies) : ∃ first, ∀ node ∈ copying.nodes first,
      node ∈ base.arena copies := by
  induction copies using List.reverseRecOn with
  | nil => cases member
  | append_singleton copies other ih =>
    simp only [arena_concat, List.mem_append, List.mem_singleton] at member ⊢
    rcases member with earlier | rfl
    · obtain ⟨first, found⟩ := ih earlier
      exact ⟨first, fun node isNode => .inl (found node isNode)⟩
    · exact ⟨_, fun node isNode => .inr isNode⟩

end Ssa

namespace Unwinder

/-- How often a head was unwound under the given outer counters. -/
def count (counts : List ((Nat × List Nat) × Nat)) (head : Nat) (outer : List Nat) : Nat :=
  (counts.lookup (head, outer)).getD 0

theorem count_cons (counts : List ((Nat × List Nat) × Nat)) (head : Nat) (outer : List Nat)
    (level : Nat) (other : Nat) (outer' : List Nat) :
    count (((head, outer), level) :: counts) other outer' =
      if other = head ∧ outer' = outer then level else count counts other outer' := by
  unfold count
  rw [List.lookup_cons]
  by_cases same : (other, outer') = (head, outer)
  · cases same
    simp
  · have apart : ¬ (other = head ∧ outer' = outer) := by simpa using same
    rw [if_neg apart, beq_false_of_ne same]

/-- The loops of a chain, each with the counter with which it is entered. -/
def entering (counts : List ((Nat × List Nat) × Nat)) (chain : List Nat) : List (Nat × Nat) :=
  chain.foldl (enterLoop counts) []

variable {counts : List ((Nat × List Nat) × Nat)}

theorem entering_concat (chain : List Nat) (head : Nat) :
    entering counts (chain ++ [head]) = entering counts chain ++
      [(head, count counts head ((entering counts chain).map (·.2)))] := by
  simp [entering, enterLoop, count]

@[simp] theorem heads_entering (chain : List Nat) : (entering counts chain).map (·.1) = chain := by
  induction chain using List.reverseRecOn with
  | nil => rfl
  | append_singleton chain head ih => rw [entering_concat, List.map_append, ih]; rfl

@[simp] theorem length_entering (chain : List Nat) :
    (entering counts chain).length = chain.length := by
  rw [← List.length_map (·.1), heads_entering]

/-- The outer part of what is entered is entered in the same way. -/
theorem eq_entering_of_isPrefix {chain : List Nat} {kept : List (Nat × Nat)}
    (outer : kept <+: entering counts chain) : kept = entering counts (kept.map (·.1)) := by
  induction chain using List.reverseRecOn with
  | nil =>
    rw [List.prefix_nil.mp outer]
    rfl
  | append_singleton chain head ih =>
    rw [entering_concat, List.prefix_concat_iff] at outer
    rcases outer with whole | outer
    · rw [whole, ← entering_concat, heads_entering]
    · exact ih outer

/-- The counts of a head do not matter for entering other loops. -/
theorem entering_cons {head level : Nat} {outer chain : List Nat} (other : head ∉ chain) :
    entering (((head, outer), level) :: counts) chain = entering counts chain := by
  induction chain using List.reverseRecOn with
  | nil => rfl
  | append_singleton chain next ih =>
    rw [List.mem_append, List.mem_singleton, not_or] at other
    rw [entering_concat, entering_concat, ih other.1, count_cons, if_neg]
    exact fun same => other.2 same.1.symm

theorem shared_isPrefix (entered : List (Nat × Nat)) (chain : List Nat) :
    shared entered chain <+: entered ∧ (shared entered chain).map (·.1) <+: chain := by
  fun_induction shared entered chain with
  | case1 level entered next chain ih =>
    exact ⟨List.cons_prefix_cons.mpr ⟨rfl, ih.1⟩, List.cons_prefix_cons.mpr ⟨rfl, ih.2⟩⟩
  | case2 => exact ⟨List.nil_prefix, List.nil_prefix⟩
  | case3 => exact ⟨List.nil_prefix, List.nil_prefix⟩

/-- Every loop that is entered has its counter. -/
def Settled (u : Unwinder) : Prop := u.entered = entering u.counts (u.entered.map (·.1))

/-- The loops that stay entered have the counters with which they would be entered anew. -/
theorem Settled.enter {u : Unwinder} (settled : u.Settled) (flow : Flow) (head : Nat) :
    (u.enter flow head).entered = entering u.counts (flow.enclosing head) := by
  obtain ⟨outer, heads⟩ := shared_isPrefix u.entered (flow.enclosing head)
  change ((flow.enclosing head).drop (shared u.entered (flow.enclosing head)).length).foldl
    (enterLoop u.counts) (shared u.entered (flow.enclosing head)) = _
  generalize shared u.entered (flow.enclosing head) = kept at outer heads ⊢
  obtain ⟨inner, chain⟩ := heads
  have again : kept = entering u.counts (kept.map (·.1)) :=
    eq_entering_of_isPrefix (settled.subst (motive := fun entered => kept <+: entered) outer)
  have rest : (flow.enclosing head).drop kept.length = inner := by
    rw [← chain]
    simp
  calc ((flow.enclosing head).drop kept.length).foldl (enterLoop u.counts) kept
      = inner.foldl (enterLoop u.counts) (entering u.counts (kept.map (·.1))) := by
        rw [rest, ← again]
    _ = entering u.counts (flow.enclosing head) := by
        rw [← chain]
        exact (List.foldl_append ..).symm

theorem level_entering {chain : List Nat} {i head level : Nat}
    (found : (entering counts chain)[i]? = some (head, level)) :
    level = count counts head (((entering counts chain).map (·.2)).take i) := by
  induction chain using List.reverseRecOn with
  | nil => cases found
  | append_singleton chain next ih =>
    rw [entering_concat] at found ⊢
    rcases Nat.lt_trichotomy i (entering counts chain).length with before | rfl | behind
    · rw [List.getElem?_append_left before] at found
      have covers : i ≤ ((entering counts chain).map (·.2)).length := by
        simpa using Nat.le_of_lt before
      rw [ih found, List.map_append, List.take_append_of_le_length covers]
    · rw [List.getElem?_concat_length] at found
      cases found
      simp
    · rw [List.getElem?_eq_none (by simpa using Nat.succ_le_of_lt behind)] at found
      cases found

/-- Only heads are unwound. -/
theorem isHead_of_unwind {u : Unwinder} {ssa : Ssa} {head : Nat} {result : Symbol × Unwinder × Ssa}
    (made : u.unwind ssa head = .ok result) : ssa.flow.isHead head = true := by
  by_contra noHead
  simp [Unwinder.unwind, Flow.extent?, noHead] at made

/-- The literal of an unwinding is noted in the form. -/
theorem enabling_of_unwind {u u' : Unwinder} {ssa ssa' : Ssa} {head : Nat} {literal : Symbol}
    (made : u.unwind ssa head = .ok (literal, u', ssa')) :
    ssa'.enabling = ssa.enabling ++ [literal] := by
  unfold Unwinder.unwind at made
  split at made
  · cases made
  · dsimp only at made
    split at made
    · cases made
    · cases made
      rfl

/-- An unwinding appends nodes under its literal, and none of them counts as loaded. -/
theorem nodes_of_unwind {u u' : Unwinder} {ssa ssa' : Ssa} {head : Nat} {literal : Symbol}
    (made : u.unwind ssa head = .ok (literal, u', ssa')) :
    ∃ copies, ssa'.nodes = ssa.nodes ++ copies ∧
      ∀ node ∈ copies, node.enabling = .var literal ∧ node.loaded = false := by
  unfold Unwinder.unwind at made
  split at made
  · cases made
  · dsimp only at made
    split at made
    · cases made
    · cases made
      refine ⟨_, rfl, fun node isCopy => ?_⟩
      obtain ⟨origin, -, rfl⟩ := List.mem_map.mp isCopy
      exact ⟨rfl, rfl⟩

/-- What an unwinding does: it takes the next counter of the head under the counters of the loops
around it, and appends the copy under these counters. -/
theorem Settled.unwind {u u' : Unwinder} {ssa ssa' : Ssa} {head : Nat} {literal : Symbol}
    {front : List Nat} (settled : u.Settled) (chain : ssa.flow.enclosing head = front ++ [head])
    (made : u.unwind ssa head = .ok (literal, u', ssa')) :
    ∃ outer level, outer = (entering u.counts front).map (·.2) ∧
      level = count u.counts head outer ∧
      u' = ⟨entering u.counts front ++ [(head, level + 1)],
        ((head, outer), level + 1) :: u.counts⟩ ∧
      ssa' = { ssa with
        nodes := ssa.nodes ++ Copying.nodes ⟨ssa, head, outer ++ [level + 1]⟩ ssa.nodes.length
        enabling := ssa.enabling ++ [Copying.literal ⟨ssa, head, outer ++ [level + 1]⟩] } := by
  have entered := settled.enter ssa.flow head
  rw [chain, entering_concat] at entered
  obtain ⟨outer, isOuter⟩ : ∃ outer, outer = (entering u.counts front).map (·.2) := ⟨_, rfl⟩
  rw [← isOuter] at entered
  generalize isLevel : count u.counts head outer = level at entered
  refine ⟨outer, level, isOuter, isLevel.symm, ?_⟩
  have levels : (u.enter ssa.flow head).odometer = ⟨outer ++ [level]⟩ := by
    simp [odometer, entered, isOuter]
  have heads : (u.enter ssa.flow head).entered.map (·.1) = front ++ [head] := by
    simp [entered]
  have zipped : (front ++ [head]).zip (outer ++ [level + 1]) =
      entering u.counts front ++ [(head, level + 1)] := by
    have inner : entering u.counts front = front.zip outer :=
      List.zip_of_prod (heads_entering front) isOuter.symm
    rw [List.zip_append (by simp [isOuter]), inner]
    rfl
  simp only [Unwinder.unwind, Flow.extent?, isHead_of_unwind made, if_true, levels, heads,
    Odometer.increment, Odometer.modify, List.getLast?_concat] at made
  split at made
  · cases made
  · next odometer incremented =>
    split at incremented
    · cases incremented
      simp only [List.dropLast_concat, zipped, List.getLastD_concat] at made
      cases made
      exact ⟨rfl, rfl⟩
    · cases incremented

/-- What the counts of a series say about the unwindings it has made. -/
structure Recorded (flow : Flow) (counts : List ((Nat × List Nat) × Nat)) : Prop where
  nodup : counts.Nodup
  isHead : ∀ {head outer level}, ((head, outer), level) ∈ counts → flow.isHead head = true
  mem_iff : ∀ {head outer level}, ((head, outer), level) ∈ counts ↔
    0 < level ∧ level ≤ count counts head outer
  depth : ∀ {head outer level}, ((head, outer), level) ∈ counts →
    outer.length + 1 = flow.depth head
  surrounded : ∀ {head outer level}, ((head, outer), level) ∈ counts → ∀ {i other level'},
    (flow.enclosing head)[i]? = some other → outer[i]? = some (level' + 1) →
    ((other, outer.take i), level' + 1) ∈ counts

theorem Recorded.step {flow : Flow} {front : List Nat} {head : Nat}
    (recorded : Recorded flow counts) (isHead : flow.isHead head = true)
    (chain : flow.enclosing head = front ++ [head])
    {outer : List Nat} {level : Nat} (isOuter : outer = (entering counts front).map (·.2))
    (isLevel : level = count counts head outer) :
    Recorded flow (((head, outer), level + 1) :: counts) := by
  have member : ∀ {other outer' level'},
      ((other, outer'), level') ∈ ((head, outer), level + 1) :: counts ↔
        (other = head ∧ outer' = outer) ∧ level' = level + 1 ∨
          ((other, outer'), level') ∈ counts := by
    intro other outer' level'
    simp
  refine ⟨?_, ?_, ?_, ?_, ?_⟩
  · refine List.nodup_cons.mpr ⟨fun old => ?_, recorded.nodup⟩
    have bound := (recorded.mem_iff.mp old).2
    omega
  · intro other outer' level' entry
    rcases member.mp entry with ⟨⟨rfl, -⟩, -⟩ | old
    · exact isHead
    · exact recorded.isHead old
  · intro other outer' level'
    rw [member, recorded.mem_iff, count_cons]
    by_cases same : other = head ∧ outer' = outer
    · obtain ⟨rfl, rfl⟩ := same
      simp only [and_self, true_and, if_true, ← isLevel]
      omega
    · simp [same]
  · intro other outer' level' entry
    rcases member.mp entry with ⟨⟨rfl, rfl⟩, -⟩ | old
    · simp [isOuter, Flow.depth, chain]
    · exact recorded.depth old
  · intro other outer' level' entry i next level'' around counted
    refine List.mem_cons_of_mem _ ?_
    rcases member.mp entry with ⟨⟨rfl, rfl⟩, -⟩ | old
    · rw [isOuter] at counted ⊢
      rw [List.getElem?_map, Option.map_eq_some_iff] at counted
      obtain ⟨⟨entered, _⟩, found, rfl⟩ := counted
      have here : front[i]? = some entered := by
        have heads : (entering counts front).map (·.1) = front := heads_entering front
        rw [← heads, List.getElem?_map, found]
        rfl
      rw [chain, List.getElem?_append_left (List.getElem?_eq_some_iff.mp here).1, here] at around
      cases around
      exact recorded.mem_iff.mpr ⟨by simp, Nat.le_of_eq (level_entering found)⟩
    · exact recorded.surrounded old around counted

/-- The unwindings a series has made, in order. -/
def copies (u : Unwinder) (base : Ssa) : List Copying :=
  u.counts.reverse.map fun entry => ⟨base, entry.1.1, entry.1.2 ++ [entry.2]⟩

theorem copies_cons (entered : List (Nat × Nat)) (head level : Nat) (outer : List Nat)
    (base : Ssa) : copies ⟨entered, ((head, outer), level) :: counts⟩ base =
      copies ⟨entered, counts⟩ base ++ [⟨base, head, outer ++ [level]⟩] := by
  simp [copies]

end Unwinder

/-- What is copied of an extended form is what is copied of the first one. -/
theorem Copying.nodes_extended {base : Ssa} {head : Nat} (copies : List Copying)
    (levels : List Nat) (inside : base.flow.extentEnd head < base.nodes.length) :
    Copying.nodes ⟨base.extended copies, head, levels⟩ = Copying.nodes ⟨base, head, levels⟩ := by
  obtain ⟨rest, whole⟩ := base.nodes_isPrefix_arena copies
  have same : ((base.arena copies).drop head).take (base.flow.extentEnd head + 1 - head) =
      (base.nodes.drop head).take (base.flow.extentEnd head + 1 - head) := by
    rw [← whole, List.drop_append, List.take_append_of_le_length]
    rw [List.length_drop]
    omega
  funext first
  exact congrArg (List.map _) same

/-- The copies that a series makes of a form. -/
structure Ssa.Series (base : Ssa) (copies : List Copying) : Prop where
  nodup : copies.Nodup
  ssa_eq : ∀ copying ∈ copies, copying.ssa = base
  isHead : ∀ copying ∈ copies, base.flow.isHead copying.head = true
  depth : ∀ copying ∈ copies, copying.levels.length = base.flow.depth copying.head
  counted : ∀ copying ∈ copies, ∃ outer level, copying.levels = outer ++ [level + 1]
  preceded : ∀ copying ∈ copies, ∀ outer level, copying.levels = outer ++ [level + 2] →
    ⟨base, copying.head, outer ++ [level + 1]⟩ ∈ copies
  surrounded : ∀ copying ∈ copies, ∀ i head level,
    (base.flow.enclosing copying.head)[i]? = some head → copying.levels[i]? = some (level + 1) →
    ⟨base, head, copying.levels.take (i + 1)⟩ ∈ copies

theorem Unwinder.mem_copies {u : Unwinder} {base : Ssa} {copying : Copying} :
    copying ∈ u.copies base ↔ ∃ head outer level, ((head, outer), level) ∈ u.counts ∧
      copying = ⟨base, head, outer ++ [level]⟩ := by
  simp only [copies, List.mem_map, List.mem_reverse, Prod.exists]
  constructor
  · rintro ⟨head, outer, level, entry, rfl⟩
    exact ⟨head, outer, level, entry, rfl⟩
  · rintro ⟨head, outer, level, entry, rfl⟩
    exact ⟨head, outer, level, entry, rfl⟩

theorem Unwinder.Recorded.series {u : Unwinder} {base : Ssa}
    (recorded : Recorded base.flow u.counts) (chains : ∀ head, base.flow.isHead head = true →
      ∃ front, base.flow.enclosing head = front ++ [head]) : base.Series (u.copies base) where
  nodup := by
    refine (List.nodup_reverse.mpr recorded.nodup).map fun entry other same => ?_
    obtain ⟨⟨head, outer⟩, level⟩ := entry
    obtain ⟨⟨head', outer'⟩, level'⟩ := other
    simp_all
  ssa_eq copying member := by
    obtain ⟨head, outer, level, -, rfl⟩ := mem_copies.mp member
    rfl
  isHead copying member := by
    obtain ⟨head, outer, level, entry, rfl⟩ := mem_copies.mp member
    exact recorded.isHead entry
  depth copying member := by
    obtain ⟨head, outer, level, entry, rfl⟩ := mem_copies.mp member
    simpa using recorded.depth entry
  counted copying member := by
    obtain ⟨head, outer, level, entry, rfl⟩ := mem_copies.mp member
    obtain ⟨positive, -⟩ := recorded.mem_iff.mp entry
    exact ⟨outer, level - 1, by rw [Nat.sub_add_cancel positive]⟩
  preceded copying member := by
    obtain ⟨head, outer, level, entry, rfl⟩ := mem_copies.mp member
    intro outer' level' same
    obtain ⟨rfl, last⟩ := List.append_inj' same rfl
    cases last
    have bound := (recorded.mem_iff.mp entry).2
    exact mem_copies.mpr ⟨head, outer, level' + 1, recorded.mem_iff.mpr ⟨by omega, by omega⟩, rfl⟩
  surrounded copying member := by
    obtain ⟨head, outer, level, entry, rfl⟩ := mem_copies.mp member
    intro i other level' around counted
    dsimp only at around counted ⊢
    rcases Nat.lt_trichotomy i outer.length with before | rfl | behind
    · rw [List.getElem?_append_left before] at counted
      refine mem_copies.mpr ⟨other, outer.take i, level' + 1,
        recorded.surrounded entry around counted, ?_⟩
      rw [List.take_append_of_le_length before, List.take_add_one, counted]
      rfl
    · obtain ⟨front, chain⟩ := chains head (recorded.isHead entry)
      have length : outer.length = front.length := by
        simpa [Flow.depth, chain] using recorded.depth entry
      rw [chain, length, List.getElem?_concat_length] at around
      cases around
      rw [List.take_of_length_le (by simp)]
      exact member
    · rw [List.getElem?_eq_none (by simpa using Nat.succ_le_of_lt behind)] at counted
      cases counted

/-- A series appends nodes, and none of them counts as loaded. -/
theorem Unwinds.exists_nodes {start : Ssa} {heads : List Nat} {u : Unwinder} {ssa : Ssa}
    (run : Unwinds start heads u ssa) :
    ∃ copies, ssa.nodes = start.nodes ++ copies ∧ ∀ node ∈ copies, node.loaded = false := by
  induction run with
  | fresh => exact ⟨[], (List.append_nil _).symm, nofun⟩
  | unwound run made ih =>
    obtain ⟨earlier, nodes, unloaded⟩ := ih
    obtain ⟨copies, nodes', unloaded'⟩ := Unwinder.nodes_of_unwind made
    refine ⟨earlier ++ copies, by rw [nodes', nodes, List.append_assoc], fun node isCopy => ?_⟩
    rcases List.mem_append.mp isCopy with before | here
    · exact unloaded node before
    · exact (unloaded' node here).2
  | refused run refusal ih => exact ih

/-- The form after a series is the one it started from with the copies that the series has made. -/
theorem Unwinds.extends_start {table : SymbolTable} {start : Ssa}
    (regular : start.toFrame.Regular table) (covers : start.body.length ≤ start.nodes.length)
    {heads : List Nat} {u : Unwinder} {ssa : Ssa} (run : Unwinds start heads u ssa) :
    u.Settled ∧ Unwinder.Recorded start.flow u.counts ∧ ssa = start.extended (u.copies start) := by
  induction run with
  | fresh =>
    refine ⟨rfl, ⟨List.nodup_nil, nofun, ?_, nofun, nofun⟩, ?_⟩
    · intro head outer level
      simp [Unwinder.count]
      omega
    · simp [Ssa.extended, Ssa.arena, Unwinder.copies]
  | @unwound heads u u' ssa ssa' head literal run made ih =>
    obtain ⟨settled, recorded, rfl⟩ := ih
    have isHead : (start.extended (u.copies start)).flow.isHead head = true :=
      Unwinder.isHead_of_unwind made
    obtain ⟨front, chain⟩ : ∃ front,
        (start.extended (u.copies start)).flow.enclosing head = front ++ [head] :=
      regular.enclosing_concat isHead
    have inside : start.flow.extentEnd head < start.nodes.length :=
      Nat.lt_of_lt_of_le (regular.extentEnd_lt isHead).2 covers
    obtain ⟨outer, level, isOuter, isLevel, rfl, rfl⟩ := settled.unwind chain made
    refine ⟨?_, recorded.step isHead chain isOuter isLevel, ?_⟩
    · have other : head ∉ front := by
        have nodup := Flow.enclosing_nodup (start.extended (u.copies start)).flow head
        rw [chain] at nodup
        exact fun member => (List.nodup_append.mp nodup).2.2 head member head (by simp) rfl
      simp only [Unwinder.Settled, List.map_append, Unwinder.heads_entering]
      change _ = Unwinder.entering _ (front ++ [head])
      rw [Unwinder.entering_concat, Unwinder.entering_cons other, ← isOuter, Unwinder.count_cons]
      simp
    · have copied := Copying.nodes_extended (u.copies start) (outer ++ [level + 1]) inside
      rw [Unwinder.copies_cons, Ssa.extended_concat, copied]
      rfl
  | refused run refusal ih => exact ih

/-- The form after a series is the first one with the copies that the series has made. -/
theorem Unwinds.extends {table : SymbolTable} {frame : Frame} (regular : frame.Regular table)
    {params : List Symbol} {heads : List Nat} {u : Unwinder} {ssa : Ssa}
    (run : Unwinds (frame.complete params) heads u ssa) :
    u.Settled ∧ Unwinder.Recorded (frame.complete params).flow u.counts ∧
      ssa = (frame.complete params).extended (u.copies (frame.complete params)) :=
  run.extends_start regular (Nat.le_of_eq (frame.length_nodes params).symm)

/-- After any calls, the form is extended by the copies of a series. -/
theorem Unwinds.exists_series {table : SymbolTable} {frame : Frame} (regular : frame.Regular table)
    {params : List Symbol} {heads : List Nat} {u : Unwinder} {ssa : Ssa}
    (run : Unwinds (frame.complete params) heads u ssa) :
    ∃ copies, (frame.complete params).Series copies ∧
      ssa = (frame.complete params).extended copies := by
  obtain ⟨-, recorded, whole⟩ := run.extends regular
  exact ⟨_, recorded.series fun _ isHead => regular.enclosing_concat isHead, whole⟩

end TemplateAnalysis
