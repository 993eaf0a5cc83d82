import TemplateAnalysis.Proofs.Ssa.OverApproximation
import TemplateAnalysis.Proofs.Unwinding.Copies

/-! # Unwinding that starts over

The counters belong to a series of unwindings and the copies to the form. A form that has been
unwound by one series may be unwound by another one, which counts from zero. Its literals are those
of the earlier series as long as it counts no further than they did in the same place, so a copy
that it appends is switched together with a copy that is there already. Only where it counts
further does it find a literal of its own.
-/

namespace TemplateAnalysis

namespace Unwinder

/-- The unwindings a series has made, in order: the head and the counters of each. -/
def unwindings (u : Unwinder) : List (Nat × List Nat) :=
  u.counts.reverse.map fun entry => (entry.1.1, entry.1.2 ++ [entry.2])

/-- The literal of an unwinding. -/
def literalOf (unwinding : Nat × List Nat) : Symbol :=
  (Name.enable unwinding.1 (Odometer.suffixOf unwinding.2 unwinding.2.length)).bool

theorem literals_copies (u : Unwinder) (base : Ssa) :
    (u.copies base).map Copying.literal = u.unwindings.map literalOf := by
  simp only [copies, unwindings, List.map_map]
  rfl

/-- The literal of an unwinding is the literal of no other one. -/
theorem literalOf_mem_iff {unwindings : List (Nat × List Nat)} {head level : Nat}
    {outer : List Nat} : literalOf (head, outer ++ [level + 1]) ∈ unwindings.map literalOf ↔
      (head, outer ++ [level + 1]) ∈ unwindings := by
  refine ⟨fun member => ?_, List.mem_map_of_mem⟩
  obtain ⟨⟨other, levels⟩, isOther, same⟩ := List.mem_map.mp member
  obtain ⟨rfl, rfl⟩ := Odometer.eq_of_enable_eq
    (Odometer.suffixOf_concat_ne_empty (Nat.le_refl _)) same.symm
  exact isOther

/-- The next unwinding of a series is not one that the series has made. -/
theorem Recorded.next_not_mem {flow : Flow} {u : Unwinder} (recorded : Recorded flow u.counts)
    (head : Nat) (outer : List Nat) :
    (head, outer ++ [count u.counts head outer + 1]) ∉ u.unwindings := by
  intro member
  simp only [unwindings, List.mem_map, List.mem_reverse, Prod.exists, Prod.mk.injEq] at member
  obtain ⟨head', outer', level, entry, rfl, same⟩ := member
  obtain ⟨rfl, last⟩ := List.append_inj' same rfl
  cases last
  have bound := (recorded.mem_iff.mp entry).2
  omega

end Unwinder

/-- The series that unwind a form one after the other, each of them fresh, and the form after them.
Between two of them the form may be loaded or reset, and its assertions may become constraints. -/
inductive Restarts (start : Ssa) : List Unwinder → Ssa → Prop
  | none : Restarts start [] start
  | series {past : List Unwinder} {heads : List Nat} {u : Unwinder} {form unwound : Ssa}
      (earlier : Restarts start past form) (run : Unwinds form heads u unwound) :
      Restarts start (past ++ [u]) unwound
  | marked {past : List Unwinder} {form : Ssa} (earlier : Restarts start past form)
      (loaded : Bool) : Restarts start past (form.setLoaded loaded)
  | constrained {past : List Unwinder} {form : Ssa} (earlier : Restarts start past form) :
      Restarts start past form.constrainAssertions

namespace Restarts

variable {table : SymbolTable} {start form : Ssa} {past : List Unwinder}

/-- Series after series, the frame stays, the nodes of the body stay, and every literal is noted. -/
theorem enabling_eq (regular : start.toFrame.Regular table)
    (covers : start.body.length ≤ start.nodes.length) (unused : start.enabling = [])
    (restarts : Restarts start past form) :
    form.toFrame = start.toFrame ∧ start.body.length ≤ form.nodes.length ∧
      form.enabling = past.flatMap fun u => u.unwindings.map Unwinder.literalOf := by
  induction restarts with
  | none => exact ⟨rfl, covers, unused⟩
  | @series past heads u form unwound earlier run ih =>
    obtain ⟨frame, covers, noted⟩ := ih
    have body : form.body = start.body := congrArg Frame.body frame
    obtain ⟨-, -, rfl⟩ := run.extends_start (frame.symm ▸ regular) (body.symm ▸ covers)
    refine ⟨frame, covers.trans (form.nodes_isPrefix_arena _).length_le, ?_⟩
    rw [List.flatMap_append, ← noted, List.flatMap_singleton, ← u.literals_copies form]
    rfl
  | marked earlier loaded ih =>
    obtain ⟨frame, covers, noted⟩ := ih
    exact ⟨frame, by simpa [Ssa.setLoaded] using covers, noted⟩
  | constrained earlier ih =>
    obtain ⟨frame, covers, noted⟩ := ih
    exact ⟨frame, by simpa [Ssa.constrainAssertions] using covers, noted⟩

/-- However often a form is unwound anew, an unwinding appends nodes under its literal, and this
literal is in use exactly if an earlier series has made the same unwinding. -/
theorem literal_mem_enabling_iff {function : String} {procedure : Procedure}
    (built : Ssa.build function procedure table = .ok start) (restarts : Restarts start past form)
    {heads : List Nat} {u u' : Unwinder} {unwound next : Ssa} {head : Nat} {literal : Symbol}
    (run : Unwinds form heads u unwound) (made : u.unwind unwound head = .ok (literal, u', next)) :
    next.enabling = unwound.enabling ++ [literal] ∧
      (∃ copies, next.nodes = unwound.nodes ++ copies ∧
        ∀ node ∈ copies, node.enabling = .var literal) ∧
      (literal ∈ unwound.enabling ↔
        ∃ earlier ∈ past, (head, u'.odometer.levels) ∈ earlier.unwindings) := by
  obtain ⟨frame, isFrame, rfl⟩ := Ssa.frame_of_build built
  obtain ⟨regular, -, -⟩ := Frame.regular_of_build isFrame
  obtain ⟨same, covers, noted⟩ :=
    restarts.enabling_eq regular (Nat.le_of_eq (frame.length_nodes _).symm) rfl
  have body : form.body = frame.body := congrArg Frame.body same
  have regular' : form.toFrame.Regular table := by
    rw [same]
    exact regular
  obtain ⟨settled, recorded, rfl⟩ := run.extends_start regular' (body.symm ▸ covers)
  obtain ⟨front, chain⟩ : ∃ front,
      (form.extended (u.copies form)).flow.enclosing head = front ++ [head] := by
    have isHead : (form.extended (u.copies form)).flow.isHead head = true :=
      Unwinder.isHead_of_unwind made
    exact regular'.enclosing_concat isHead
  have literals := Unwinder.enabling_of_unwind made
  obtain ⟨outer, level, isOuter, isLevel, rfl, rfl⟩ := settled.unwind chain made
  obtain rfl : Unwinder.literalOf (head, outer ++ [level + 1]) = literal :=
    List.singleton_inj.mp (List.append_cancel_left literals)
  have levels : Unwinder.odometer ⟨Unwinder.entering u.counts front ++ [(head, level + 1)],
      ((head, outer), level + 1) :: u.counts⟩ = ⟨outer ++ [level + 1]⟩ := by
    simp [Unwinder.odometer, isOuter]
  refine ⟨literals, ?_, ?_⟩
  · obtain ⟨copies, nodes, under⟩ := Unwinder.nodes_of_unwind made
    exact ⟨copies, nodes, fun node isCopy => (under node isCopy).1⟩
  · -- what the series itself has made does not count: it has not counted so far yet
    have fresh : Unwinder.literalOf (head, outer ++ [level + 1]) ∉
        u.unwindings.map Unwinder.literalOf := by
      rw [Unwinder.literalOf_mem_iff, isLevel]
      exact recorded.next_not_mem head outer
    have inUse : (form.extended (u.copies form)).enabling =
        (past.flatMap fun u => u.unwindings.map Unwinder.literalOf) ++
          u.unwindings.map Unwinder.literalOf := by
      rw [← noted, ← u.literals_copies form]
      rfl
    rw [inUse, List.mem_append, or_iff_left fresh, List.mem_flatMap, levels]
    simp only [Unwinder.literalOf_mem_iff]

/-- A loop around a single assignment. -/
def descending : Procedure where
  params := [⟨"x", .int⟩]
  body := [
    .assign ⟨"x", .int⟩ (.arith .sub (.var ⟨"x", .int⟩) (.int 1)),
    .goto (.nondet .bool) 0,
    .endFunction]

/-- A second series that counts further than the first one finds a literal of its own. -/
theorem literal_not_mem_enabling_descending :
    ∃ start first form u unwound literal u' next,
      Ssa.build "descending" descending [] = .ok start ∧
      Restarts start [first] form ∧ Unwinds form [0] u unwound ∧
      u.unwind unwound 0 = .ok (literal, u', next) ∧
      first.unwindings = [(0, [1])] ∧ u'.odometer.levels = [2] ∧ literal ∉ unwound.enabling := by
  obtain ⟨start, built⟩ : ∃ start, Ssa.build "descending" descending [] = .ok start := ⟨_, rfl⟩
  obtain ⟨_, first, form, made, past⟩ : ∃ literal first form,
      Unwinder.unwind {} start 0 = .ok (literal, first, form) ∧
      first.unwindings = [(0, [1])] := by
    cases built
    exact ⟨_, _, _, rfl, rfl⟩
  obtain ⟨_, u, unwound, literal, u', next, again, further, levels⟩ :
      ∃ literal u unwound literal' u' next,
        Unwinder.unwind {} (form.setLoaded true) 0 = .ok (literal, u, unwound) ∧
        u.unwind unwound 0 = .ok (literal', u', next) ∧ u'.odometer.levels = [2] := by
    cases built
    cases made
    exact ⟨_, _, _, _, _, _, rfl, rfl, rfl⟩
  have restarts : Restarts start [first] (form.setLoaded true) :=
    .marked (.series .none (.unwound .fresh made)) true
  have run : Unwinds (form.setLoaded true) [0] u unwound := .unwound .fresh again
  obtain ⟨-, -, inUse⟩ := literal_mem_enabling_iff built restarts run further
  refine ⟨start, first, _, u, unwound, literal, u', next, built, restarts, run, further, past,
    levels, fun member => ?_⟩
  obtain ⟨earlier, isEarlier, repeated⟩ := inUse.mp member
  rw [List.mem_singleton.mp isEarlier, past, levels] at repeated
  exact absurd repeated (by decide)

/-- The first unwinding of a second series takes the literal of the first unwinding of the first
one, also when the form has been loaded in between. -/
theorem literal_mem_enabling_descending :
    ∃ start first form literal u' next,
      Ssa.build "descending" descending [] = .ok start ∧
      Restarts start [first] form ∧ Unwinds form [] {} form ∧
      Unwinder.unwind {} form 0 = .ok (literal, u', next) ∧
      literal ∈ form.enabling ∧ next.enabling.map (·.name) = ["$enable#0%1", "$enable#0%1"] := by
  obtain ⟨start, built⟩ : ∃ start, Ssa.build "descending" descending [] = .ok start := ⟨_, rfl⟩
  obtain ⟨_, first, form, made⟩ : ∃ literal first form,
      Unwinder.unwind {} start 0 = .ok (literal, first, form) := by
    cases built
    exact ⟨_, _, _, rfl⟩
  obtain ⟨literal, u', next, again, inUse, noted⟩ : ∃ literal u' next,
      Unwinder.unwind {} (form.setLoaded true) 0 = .ok (literal, u', next) ∧
      literal ∈ form.enabling ∧ next.enabling.map (·.name) = ["$enable#0%1", "$enable#0%1"] := by
    cases built
    cases made
    exact ⟨_, _, _, rfl, .head _, rfl⟩
  exact ⟨start, first, form.setLoaded true, literal, u', next, built,
    .marked (.series .none (.unwound .fresh made)) true, .fresh, again, inUse, noted⟩

end Restarts

end TemplateAnalysis
