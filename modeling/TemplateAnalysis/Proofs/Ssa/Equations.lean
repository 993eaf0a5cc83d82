import Mathlib.Data.List.Nodup
import TemplateAnalysis.Proofs.Expr.Terms
import TemplateAnalysis.Proofs.Ssa.Definitional
import TemplateAnalysis.Proofs.Ssa.Reaching

/-! # The definitions of single-assignment form

The formulas of the form are the definitions of its nodes. Names are ranked by the location at which
they are introduced, with what is known on arrival before what the instruction adds. A definition
reads names of smaller rank, and open ones of its own, so the open names and those written by calls
determine all others: any choice of them extends to a model, and a change from some rank on leaves
everything of smaller rank as it was.
-/

namespace TemplateAnalysis

namespace Flow

/-- The head to which the back edge from a location goes. -/
def headOf (flow : Flow) (b : Nat) : Nat :=
  ((flow.loops.find? fun loop => loop.backEdge == b).map (·.head)).getD 0

theorem headOf_eq {body : List Instruction} {b head : Nat}
    (member : b ∈ (ofBody body).backEdges head) : (ofBody body).headOf b = head := by
  obtain ⟨loop, inLoops, rfl⟩ := List.mem_map.mp member
  cases found : (ofBody body).loops.find? fun other => other.backEdge == loop.backEdge with
  | none => simpa using List.find?_eq_none.mp found loop (List.mem_filter.mp inLoops).1
  | some other =>
    have same : other.backEdge = loop.backEdge := by simpa using List.find?_some found
    have isBack : other.backEdge ∈ (ofBody body).backEdges other.head :=
      List.mem_map.mpr ⟨other, by simp [List.mem_of_find?_eq_some found], rfl⟩
    rw [same] at isBack
    simpa [headOf, found] using head_unique isBack member

end Flow

/-- The name of the symbol that stands for a definition of an object. -/
def Definition.name (object : Symbol) : Definition → Name
  | .input => .input object.name
  | .assigned loc => .version object.name loc
  | .merged loc => .phi object.name loc

theorem Definition.version_eq (object : Symbol) (d : Definition) :
    d.version object = (d.name object).symbol object.sort := by
  cases d <;> rfl

@[simp] theorem Definition.sort_version (object : Symbol) (d : Definition) :
    (d.version object).sort = object.sort := by
  cases d <;> rfl

/-- Names that no node defines. -/
def Name.isOpen : Name → Bool
  | .version _ _ => false
  | .phi _ _ => false
  | .guard _ => false
  | .cond _ => false
  | _ => true

theorem Expr.eq_bool_of_isConstant {e : Expr} (constant : e.isConstant = true) :
    ∃ b, e = .bool b := by
  cases e <;> simp_all [isConstant, isTrue, isFalse]

/-- The condition of a branch or assumption. -/
def Instruction.branch? : Instruction → Option Expr
  | .goto condition _ => some condition
  | .assume condition => some condition
  | _ => none

namespace Frame

variable (frame : Frame)

/-- An expression over the versions that reach a location, with its open values named. -/
def readAt (loc : Nat) (e : Expr) : Expr :=
  ((e.rename fun s => frame.readBefore? s.name loc).fillNondets
    (fun k sort => .var ((Name.nondet loc k).symbol sort)) 0).1

/-- The definitions that an instruction adds. -/
def effectEqualities (loc : Nat) : Instruction → List Equality
  | .decl object =>
    [⟨(Name.version object.name loc).symbol object.sort,
      .var ((Name.nondet loc 0).symbol object.sort)⟩]
  | .assign target value =>
    [⟨(Name.version target.name loc).symbol target.sort, frame.readAt loc value⟩]
  | .goto condition _ => branch condition
  | .assume condition => branch condition
  | .ret (some value) =>
    [⟨(Name.version returnValue loc).symbol value.sort, frame.readAt loc value⟩]
  | _ => []
where
  branch (condition : Expr) : List Equality :=
    if condition.isConstant then [] else [⟨(Name.cond loc).bool, frame.readAt loc condition⟩]

/-- The definitions of a location. -/
def equalitiesAt (loc : Nat) (instruction : Instruction) : List Equality :=
  frame.mergeEqualities loc ++ frame.guardEquality loc :: frame.effectEqualities loc instruction

/-- The definitions of all locations, in order. -/
def equalities : List Equality :=
  frame.body.zipIdx.flatMap fun (instruction, loc) => frame.equalitiesAt loc instruction

theorem mem_equalities {e : Equality} : e ∈ frame.equalities ↔
    ∃ (loc : Nat) (instruction : Instruction), frame.body[loc]? = some instruction ∧
      e ∈ frame.equalitiesAt loc instruction := by
  simp only [equalities, List.mem_flatMap, Prod.exists, List.mem_zipIdx_iff_getElem?]
  exact exists_comm

/-- The rank of a name: what is known on arrival at a location comes after everything of earlier
locations and before what its instruction adds. Names that belong to no procedure come last. -/
def rank : Name → Nat
  | .version _ loc => 2 * loc + 2
  | .cond loc => 2 * loc + 2
  | .nondet loc _ => 2 * loc + 2
  | .phi _ loc => 2 * loc + 1
  | .guard loc => 2 * loc + 1
  | .loopSelect b => 2 * frame.flow.headOf b + 1
  | .loopBack _ b => 2 * frame.flow.headOf b + 1
  | .input _ => 0
  | _ => 2 * frame.body.length + 1

/-- The symbol has a smaller rank, or is open and of no greater one. -/
def Available (bound : Nat) (s : Symbol) : Prop :=
  ∃ (name : Name) (sort : ValueSort), s = name.symbol sort ∧ name.IsProper ∧
    (frame.rank name < bound ∨ name.isOpen = true ∧ frame.rank name ≤ bound)

/-- The definition gives a value to a name, over what is available for it. -/
structure Defines (e : Equality) (name : Name) : Prop where
  lhs_eq : e.lhs = name.symbol e.lhs.sort
  proper : name.IsProper
  notOpen : name.isOpen = false
  rhs_term : e.rhs.TermOver (frame.Available (frame.rank name)) e.lhs.sort

variable {frame}

theorem Defines.isWellSorted {e : Equality} {name : Name} (defines : frame.Defines e name) :
    e.IsWellSorted :=
  ⟨defines.rhs_term.sorted, defines.rhs_term.closed, defines.rhs_term.sort_eq⟩

theorem Defines.not_mem_occurrences {e later : Equality} {name other : Name}
    (defines : frame.Defines e name) (defines' : frame.Defines later other)
    (above : frame.rank name ≤ frame.rank other) : later.lhs ∉ e.rhs.occurrences := by
  intro occurs
  obtain ⟨third, sort, same, proper, available⟩ := defines.rhs_term.within _ occurs
  rw [defines'.lhs_eq] at same
  obtain ⟨rfl, -⟩ := Name.eq_of_symbol_eq defines'.proper proper same
  rcases available with below | ⟨isOpen, -⟩
  · omega
  · rw [defines'.notOpen] at isOpen
    cases isOpen

theorem Defines.precedes {e later : Equality} {name other : Name}
    (defines : frame.Defines e name) (defines' : frame.Defines later other)
    (apart : name ≠ other) (above : frame.rank name ≤ frame.rank other) : e.Precedes later := by
  refine ⟨fun same => ?_, defines.not_mem_occurrences defines' above⟩
  rw [defines.lhs_eq, defines'.lhs_eq] at same
  exact apart (Name.eq_of_symbol_eq defines'.proper defines.proper same).1.symm

theorem mem_arriving {loc : Nat} {d : Symbol → Definition} (arrives : d ∈ frame.arriving loc) :
    d = (fun _ => .input) ∨
      ∃ pred ∈ frame.flow.forwardPreds loc, d = frame.definitionAfter pred := by
  unfold arriving at arrives
  split at arrives
  · exact .inl (List.mem_singleton.mp arrives)
  · obtain ⟨pred, isPred, rfl⟩ := List.mem_map.mp arrives
    exact .inr ⟨pred, isPred, rfl⟩

/-- The symbols on which the edges that leave a location depend. -/
def EdgeSymbol (loc : Nat) (s : Symbol) : Prop :=
  s = (Name.guard loc).bool ∨ s = (Name.cond loc).bool

theorem EdgeSymbol.available {loc bound : Nat} (below : 2 * loc + 2 < bound) (s : Symbol)
    (isEdge : EdgeSymbol loc s) : frame.Available bound s := by
  rcases isEdge with rfl | rfl
  · exact ⟨.guard loc, .bool, rfl, nofun, .inl (Nat.lt_of_succ_lt below)⟩
  · exact ⟨.cond loc, .bool, rfl, nofun, .inl below⟩

theorem guard_term (loc : Nat) :
    (Expr.var (Name.guard loc).bool).TermOver (EdgeSymbol loc) .bool := by
  have isEdge : EdgeSymbol loc (Name.guard loc).bool := .inl rfl
  exact .var isEdge

/-- The condition of a branch is a constant or the condition symbol. -/
theorem branchCondition_over {P : Symbol → Prop} {loc : Nat} {instruction : Instruction}
    (branches : ∀ condition, instruction.branch? = some condition → condition.isConstant = false →
      P (Name.cond loc).bool) : (branchCondition loc instruction).TermOver P .bool := by
  have named : ∀ condition : Expr, (condition.isConstant = false → P (Name.cond loc).bool) →
      (branchCondition.named loc condition).TermOver P .bool := by
    intro condition known
    unfold branchCondition.named
    split
    · next constant =>
      obtain ⟨b, rfl⟩ := Expr.eq_bool_of_isConstant constant
      exact .bool b
    · next isOpen => exact .var (known (Bool.eq_false_iff.mpr isOpen))
  cases instruction with
  | goto condition target => exact named condition (branches condition rfl)
  | assume condition => exact named condition (branches condition rfl)
  | _ => exact .bool true

theorem branchCondition_term (loc : Nat) (instruction : Instruction) :
    (branchCondition loc instruction).TermOver (EdgeSymbol loc) .bool :=
  branchCondition_over fun _ _ _ => .inr rfl

/-- The condition of an edge reads the guard of its source, and the condition symbol if there is
one. -/
theorem edgeGuard_over {P : Symbol → Prop} {loc : Nat} {instruction : Instruction}
    (here : frame.body[loc]? = some instruction) (known : P (Name.guard loc).bool)
    (branches : ∀ condition, instruction.branch? = some condition → condition.isConstant = false →
      P (Name.cond loc).bool) (next : Nat) : (frame.edgeGuard loc next).TermOver P .bool := by
  have guard : (Expr.var (Name.guard loc).bool).TermOver P .bool := .var known
  have branch := branchCondition_over branches
  rw [edgeGuard, edgeGuard?, here, Option.map_some, Option.getD_some]
  cases instruction with
  | goto condition target =>
    simp only [edgeCondition]
    split
    · exact guard
    · split
      · exact guard.and branch
      · exact guard.and branch.not
  | assume condition => exact guard.and branch
  | _ => exact guard

/-- The condition of an edge is a term over the guard and the branch condition of its source. -/
theorem edgeGuard_term {loc : Nat} {instruction : Instruction}
    (here : frame.body[loc]? = some instruction) (next : Nat) :
    (frame.edgeGuard loc next).TermOver (EdgeSymbol loc) .bool :=
  edgeGuard_over here (.inl rfl) (fun _ _ _ => .inr rfl) next

theorem Regular.headOf_eq {table : SymbolTable} (regular : frame.Regular table) {loc b : Nat}
    (member : b ∈ frame.flow.backEdges loc) : frame.flow.headOf b = loc := by
  rw [regular.flow_eq] at member ⊢
  exact Flow.headOf_eq member

theorem chooseFirst_term {P : Symbol → Prop} {sort : ValueSort}
    {alternatives : List (Expr × Expr)} {value : Expr}
    (chosen : chooseFirst alternatives = some value)
    (terms : ∀ alternative ∈ alternatives,
      alternative.1.TermOver P .bool ∧ alternative.2.TermOver P sort) :
    value.TermOver P sort := by
  induction alternatives generalizing value with
  | nil => cases chosen
  | cons first rest ih =>
    obtain ⟨guard, alternative⟩ := first
    have head := terms _ List.mem_cons_self
    cases rest with
    | nil =>
      cases chosen
      exact head.2
    | cons second rest =>
      obtain ⟨other, chosenLater, rfl⟩ := Option.map_eq_some_iff.mp chosen
      have tail := ih chosenLater fun alternative member =>
        terms alternative (List.mem_cons_of_mem _ member)
      exact head.1.ite head.2 tail

theorem mem_mergeEqualities {loc : Nat} {e : Equality} : e ∈ frame.mergeEqualities loc ↔
    ∃ object ∈ frame.mergedObjects loc, ∃ value,
      chooseFirst (frame.alternatives object loc) = some value ∧ ⟨phi object loc, value⟩ = e := by
  simp only [mergeEqualities, List.mem_filterMap, Option.map_eq_some_iff]

section Reading

variable {P : Symbol → Prop} {loc : Nat}
  (select : ∀ b ∈ frame.flow.backEdges loc, P (loopSelect b))
  (edge : ∀ pred ∈ frame.flow.forwardPreds loc, (frame.edgeGuard pred loc).TermOver P .bool)
include select edge

/-- What makes a location reached is read over the edges into it. -/
theorem reached_over : ∀ e ∈ (if loc = 0 then [.bool true]
      else (frame.flow.forwardPreds loc).map fun pred => frame.edgeGuard pred loc) ++
      (frame.flow.backEdges loc).map fun b => .var (loopSelect b),
    e.TermOver P .bool := by
  intro e member
  rcases List.mem_append.mp member with forward | back
  · split at forward
    · obtain rfl := List.mem_singleton.mp forward
      exact .bool true
    · obtain ⟨pred, isPred, rfl⟩ := List.mem_map.mp forward
      exact edge pred isPred
  · obtain ⟨b, isBack, rfl⟩ := List.mem_map.mp back
    exact .var (select b isBack)

/-- What an object may be at a location is read over the edges into it. -/
theorem Regular.alternatives_over {table : SymbolTable} (regular : frame.Regular table)
    {object : Symbol} (isObject : object ∈ frame.objects)
    (back : ∀ b ∈ frame.flow.backEdges loc, P (loopBack object b))
    (entry : P (Definition.input.version object))
    (arrives : ∀ pred ∈ frame.flow.forwardPreds loc,
      P ((frame.definitionAfter pred object).version object)) :
    ∀ alternative ∈ frame.alternatives object loc,
      alternative.1.TermOver P .bool ∧ alternative.2.TermOver P object.sort := by
  intro alternative member
  have version : ∀ {d : Definition}, P (d.version object) →
      (Expr.var (d.version object)).TermOver P object.sort := by
    intro d known
    rw [← d.sort_version object]
    exact .var known
  simp only [alternatives, List.mem_append, List.mem_map, List.mem_filterMap] at member
  rcases member with (⟨b, isBack, rfl⟩ | first) | ⟨pred, isPred, found⟩
  · exact ⟨.var (select b isBack), .var (back b isBack)⟩
  · split at first
    · obtain rfl := List.mem_singleton.mp first
      exact ⟨.bool true, version entry⟩
    · cases first
  · obtain ⟨earlier, inside⟩ := regular.pred_lt isPred
    rw [regular.readAfter?_eq (Nat.lt_trans earlier inside) isObject] at found
    cases found
    exact ⟨edge pred isPred, version (arrives pred isPred)⟩

end Reading

namespace Proper

variable {table : SymbolTable} (proper : frame.Proper table)
include proper

private theorem rank_after_of_before {loc : Nat} (inside : loc < frame.body.length)
    {object : Symbol} (member : object ∈ frame.objects)
    (before : frame.rank ((frame.definitionBefore loc object).name object) ≤ 2 * loc + 1) :
    frame.rank ((frame.definitionAfter loc object).name object) ≤ 2 * loc + 2 := by
  rw [proper.definitionAfter_eq (List.getElem?_eq_getElem inside) member]
  split
  · exact Nat.le_refl _
  · omega

/-- What reaches a location is introduced on arrival there at the latest. -/
theorem rank_definitionBefore {loc : Nat} (inside : loc < frame.body.length) {object : Symbol}
    (member : object ∈ frame.objects) :
    frame.rank ((frame.definitionBefore loc object).name object) ≤ 2 * loc + 1 := by
  induction loc using Nat.strongRecOn with
  | ind loc ih =>
    rcases proper.definitionBefore_cases inside member with merged | ⟨-, same, entry⟩
    · rw [merged]
      exact Nat.le_refl _
    · cases arrived : frame.arriving loc with
      | nil =>
        rw [entry arrived]
        exact Nat.zero_le _
      | cons d rest =>
        have first : d ∈ frame.arriving loc := arrived ▸ List.mem_cons_self
        rw [← same d first]
        rcases mem_arriving first with rfl | ⟨pred, isPred, rfl⟩
        · exact Nat.zero_le _
        · obtain ⟨earlier, -⟩ := proper.pred_lt isPred
          have within : pred < frame.body.length := by omega
          have bound := proper.rank_after_of_before within member (ih pred earlier within)
          omega

/-- What reaches a location and is not merged there is introduced earlier. -/
theorem rank_definitionBefore_lt {loc : Nat} (inside : loc < frame.body.length) {object : Symbol}
    (member : object ∈ frame.objects)
    (notMerged : frame.definitionBefore loc object ≠ .merged loc) :
    frame.rank ((frame.definitionBefore loc object).name object) < 2 * loc + 1 := by
  have bound := proper.rank_definitionBefore inside member
  cases d : frame.definitionBefore loc object with
  | input => exact Nat.succ_pos _
  | assigned p =>
    rw [d] at bound
    simp only [Definition.name, rank] at bound ⊢
    omega
  | merged p =>
    rw [d] at bound notMerged
    have apart : p ≠ loc := fun same => notMerged (congrArg Definition.merged same)
    simp only [Definition.name, rank] at bound ⊢
    omega

/-- What leaves a location is introduced there at the latest. -/
theorem rank_definitionAfter {loc : Nat} (inside : loc < frame.body.length) {object : Symbol}
    (member : object ∈ frame.objects) :
    frame.rank ((frame.definitionAfter loc object).name object) ≤ 2 * loc + 2 :=
  proper.rank_after_of_before inside member (proper.rank_definitionBefore inside member)

theorem definition_isProper {object : Symbol} (member : object ∈ frame.objects)
    (d : Definition) : (d.name object).IsProper := by
  have objectName := proper.isObjectName object member
  cases d <;> rintro name ⟨⟩ <;> exact objectName

theorem version_available {object : Symbol} (member : object ∈ frame.objects) {d : Definition}
    {bound : Nat} (below : frame.rank (d.name object) < bound) :
    frame.Available bound (d.version object) :=
  ⟨d.name object, object.sort, d.version_eq object, proper.definition_isProper member d,
    .inl below⟩

theorem eq_of_name_eq {first second : Symbol} (isFirst : first ∈ frame.objects)
    (isSecond : second ∈ frame.objects) (same : first.name = second.name) : first = second :=
  List.inj_on_of_nodup_map proper.names_nodup isFirst isSecond same

theorem select_available {loc b : Nat} (member : b ∈ frame.flow.backEdges loc) :
    frame.Available (2 * loc + 1) (loopSelect b) := by
  refine ⟨.loopSelect b, .bool, rfl, nofun, .inr ⟨rfl, ?_⟩⟩
  simp only [rank, proper.headOf_eq member, Nat.le_refl]

theorem back_available {loc b : Nat} (member : b ∈ frame.flow.backEdges loc) {object : Symbol}
    (isObject : object ∈ frame.objects) :
    frame.Available (2 * loc + 1) (loopBack object b) := by
  refine ⟨.loopBack object.name b, object.sort, rfl, ?_, .inr ⟨rfl, ?_⟩⟩
  · rintro name ⟨⟩
    exact proper.isObjectName object isObject
  · simp only [rank, proper.headOf_eq member, Nat.le_refl]

theorem edge_available {loc pred : Nat} (isPred : pred ∈ frame.flow.forwardPreds loc) :
    (frame.edgeGuard pred loc).TermOver (frame.Available (2 * loc + 1)) .bool := by
  obtain ⟨earlier, inside⟩ := proper.pred_lt isPred
  have here := List.getElem?_eq_getElem (Nat.lt_trans earlier inside)
  exact (edgeGuard_term here loc).mono (EdgeSymbol.available (by omega))

/-- What an object may be at a location is a term over what is available on arrival. -/
theorem alternatives_term {loc : Nat} {object : Symbol} (isObject : object ∈ frame.objects) :
    ∀ alternative ∈ frame.alternatives object loc,
      alternative.1.TermOver (frame.Available (2 * loc + 1)) .bool ∧
        alternative.2.TermOver (frame.Available (2 * loc + 1)) object.sort := by
  refine proper.alternatives_over (fun _ => proper.select_available)
    (fun _ => proper.edge_available) isObject
    (fun _ isBack => proper.back_available isBack isObject)
    (proper.version_available isObject (Nat.succ_pos _)) ?_
  intro pred isPred
  obtain ⟨earlier, inside⟩ := proper.pred_lt isPred
  have bound := proper.rank_definitionAfter (Nat.lt_trans earlier inside) isObject
  exact proper.version_available isObject (by omega)

theorem phi_defines {loc : Nat} (inside : loc < frame.body.length) {object : Symbol}
    (isMerged : object ∈ frame.mergedObjects loc) {value : Expr}
    (chosen : chooseFirst (frame.alternatives object loc) = some value) :
    frame.Defines ⟨phi object loc, value⟩ (.phi object.name loc) := by
  obtain ⟨isObject, -⟩ := (proper.mem_mergedObjects inside).mp isMerged
  refine ⟨rfl, ?_, rfl, chooseFirst_term chosen (proper.alternatives_term isObject)⟩
  rintro name ⟨⟩
  exact proper.isObjectName object isObject

/-- What makes a location reached is a term over what is available on arrival. -/
theorem reached_terms (loc : Nat) : ∀ e ∈ (if loc = 0 then [.bool true]
      else (frame.flow.forwardPreds loc).map fun pred => frame.edgeGuard pred loc) ++
      (frame.flow.backEdges loc).map fun b => .var (loopSelect b),
    e.TermOver (frame.Available (2 * loc + 1)) .bool :=
  reached_over (fun _ => proper.select_available) fun _ => proper.edge_available

theorem guard_defines (loc : Nat) : frame.Defines (frame.guardEquality loc) (.guard loc) :=
  ⟨rfl, nofun, rfl, .disj (proper.reached_terms loc)⟩

theorem reads_mem {loc : Nat} {instruction : Instruction}
    (here : frame.body[loc]? = some instruction) {s : Symbol} (read : s ∈ instruction.reads) :
    s ∈ frame.objects := by
  refine proper.mentioned instruction (List.mem_of_getElem? here) s (List.mem_append_left _ ?_)
  cases instruction with
  | dead object => cases read
  | _ => exact List.mem_append_left _ read

theorem writes_mem {loc : Nat} {instruction : Instruction}
    (here : frame.body[loc]? = some instruction) {s : Symbol}
    (written : instruction.writes = some s) : s ∈ frame.objects := by
  refine proper.mentioned instruction (List.mem_of_getElem? here) s (List.mem_append_left _ ?_)
  cases instruction with
  | dead object => cases written
  | _ => exact List.mem_append_right _ (by simp [written])

theorem returned_mem {loc : Nat} {value : Expr}
    (here : frame.body[loc]? = some (.ret (some value))) :
    ⟨returnValue, value.sort⟩ ∈ frame.objects :=
  proper.mentioned _ (List.mem_of_getElem? here) _
    (List.mem_append_right _ (List.mem_singleton_self _))

theorem wellSorted_at {loc : Nat} {instruction : Instruction}
    (here : frame.body[loc]? = some instruction) : instruction.isWellSorted = true :=
  proper.wellSorted instruction (List.mem_of_getElem? here)

theorem imageUnder_readBefore {loc : Nat} (inside : loc < frame.body.length) {s : Symbol}
    (isObject : s ∈ frame.objects) :
    Expr.imageUnder (fun s => frame.readBefore? s.name loc) s =
      (frame.definitionBefore loc s).version s := by
  rw [Expr.imageUnder, proper.readBefore?_eq inside isObject, Option.getD_some]

/-- An expression over the objects is read as a term over what has reached the location. -/
theorem readAt_term {loc : Nat} (inside : loc < frame.body.length) {e : Expr}
    (sorted : e.isWellSorted = true) (objects : ∀ s ∈ e.occurrences, s ∈ frame.objects) :
    (frame.readAt loc e).TermOver (frame.Available (2 * loc + 2)) e.sort := by
  refine Expr.TermOver.fillNondets_rename sorted (fun s occurs => ?_) (fun k sort => ?_) 0
  · have isObject := objects s occurs
    have bound := proper.rank_definitionBefore inside isObject
    rw [proper.imageUnder_readBefore inside isObject]
    exact ⟨Definition.sort_version s _, proper.version_available isObject (by omega)⟩
  · have opened : frame.Available (2 * loc + 2) ((Name.nondet loc k).symbol sort) :=
      ⟨.nondet loc k, sort, rfl, nofun, .inr ⟨rfl, Nat.le_refl _⟩⟩
    exact .var opened

/-- What an instruction adds, in terms of the versions before its location. -/
theorem effectAt_eq {loc : Nat} {instruction : Instruction}
    (here : frame.body[loc]? = some instruction) :
    (frame.effectAt loc instruction).equalities = frame.effectEqualities loc instruction ∧
      (frame.effectAt loc instruction).assertions =
        instruction.asserted.map (frame.readAt loc) := by
  obtain ⟨reach, found⟩ := proper.exists_reach (List.getElem?_eq_some_iff.mp here).1
  have read : ∀ e, (Frame.read reach.before loc e 0).1 = frame.readAt loc e := by
    intro e
    simp only [Frame.read, readAt, readBefore?, found, Option.bind_some, Expr.rename]
  rw [effectAt, found]
  cases instruction with
  | goto condition target =>
    simp only [effect, effect.branch, effectEqualities, effectEqualities.branch]
    split <;> simp [read, Instruction.asserted]
  | assume condition =>
    simp only [effect, effect.branch, effectEqualities, effectEqualities.branch]
    split <;> simp [read, Instruction.asserted]
  | ret value =>
    cases value with
    | none => exact ⟨rfl, rfl⟩
    | some value =>
      have entry := proper.find?_before found (proper.returned_mem here)
      simp [effect, effectEqualities, Instruction.asserted, entry, read]
  | _ => simp [effect, effectEqualities, Instruction.asserted, read]

theorem effect_defines {loc : Nat} {instruction : Instruction}
    (here : frame.body[loc]? = some instruction) {e : Equality}
    (member : e ∈ frame.effectEqualities loc instruction) :
    ∃ name, frame.Defines e name ∧ frame.rank name = 2 * loc + 2 := by
  have inside := (List.getElem?_eq_some_iff.mp here).1
  have sorted := proper.wellSorted_at here
  have versionProper : ∀ {object : Symbol}, object ∈ frame.objects →
      (Name.version object.name loc).IsProper := by
    rintro object isObject name ⟨⟩
    exact proper.isObjectName object isObject
  have branch : ∀ condition : Expr, condition.isCondition = true →
      (∀ s ∈ condition.occurrences, s ∈ frame.objects) →
      e ∈ effectEqualities.branch frame loc condition →
      ∃ name, frame.Defines e name ∧ frame.rank name = 2 * loc + 2 := by
    intro condition isCondition objects member
    unfold effectEqualities.branch at member
    split at member
    · cases member
    · obtain rfl := List.mem_singleton.mp member
      obtain ⟨sorted, sort⟩ := Expr.isCondition_iff.mp isCondition
      have term := proper.readAt_term inside sorted objects
      rw [sort] at term
      exact ⟨.cond loc, ⟨rfl, nofun, rfl, term⟩, rfl⟩
  cases instruction with
  | decl object =>
    obtain rfl := List.mem_singleton.mp member
    have opened : frame.Available (2 * loc + 2) ((Name.nondet loc 0).symbol object.sort) :=
      ⟨.nondet loc 0, object.sort, rfl, nofun, .inr ⟨rfl, Nat.le_refl _⟩⟩
    have isObject := proper.writes_mem here rfl
    exact ⟨.version object.name loc, ⟨rfl, versionProper isObject, rfl, .var opened⟩, rfl⟩
  | assign target value =>
    obtain rfl := List.mem_singleton.mp member
    simp only [Instruction.isWellSorted, Bool.and_eq_true, beq_iff_eq] at sorted
    have term := proper.readAt_term inside sorted.1 fun s read => proper.reads_mem here read
    rw [sorted.2] at term
    have isObject := proper.writes_mem here rfl
    exact ⟨.version target.name loc, ⟨rfl, versionProper isObject, rfl, term⟩, rfl⟩
  | ret value =>
    cases value with
    | none => cases member
    | some value =>
      obtain rfl := List.mem_singleton.mp member
      have term := proper.readAt_term inside sorted fun s read => proper.reads_mem here read
      have isObject := proper.returned_mem here
      exact ⟨.version returnValue loc, ⟨rfl, versionProper isObject, rfl, term⟩, rfl⟩
  | goto condition target =>
    exact branch condition sorted (fun s read => proper.reads_mem here read) member
  | assume condition =>
    exact branch condition sorted (fun s read => proper.reads_mem here read) member
  | _ => cases member

theorem equalitiesAt_defines {loc : Nat} {instruction : Instruction}
    (here : frame.body[loc]? = some instruction) {e : Equality}
    (member : e ∈ frame.equalitiesAt loc instruction) : ∃ name, frame.Defines e name ∧
      2 * loc + 1 ≤ frame.rank name ∧ frame.rank name ≤ 2 * loc + 2 := by
  rcases List.mem_append.mp member with merge | rest
  · have inside := (List.getElem?_eq_some_iff.mp here).1
    obtain ⟨object, isMerged, value, chosen, rfl⟩ := mem_mergeEqualities.mp merge
    refine ⟨_, proper.phi_defines inside isMerged chosen, ?_⟩
    simp only [rank]
    omega
  · rcases List.mem_cons.mp rest with rfl | effect
    · refine ⟨_, proper.guard_defines loc, ?_⟩
      simp only [rank]
      omega
    · obtain ⟨name, defines, rank⟩ := proper.effect_defines here effect
      exact ⟨name, defines, by omega, by omega⟩

omit proper in
private theorem effectEqualities_pairwise {loc : Nat} (instruction : Instruction)
    (R : Equality → Equality → Prop) :
    (frame.effectEqualities loc instruction).Pairwise R := by
  have branch : ∀ condition, (effectEqualities.branch frame loc condition).Pairwise R := by
    intro condition
    unfold effectEqualities.branch
    split
    · exact .nil
    · exact List.pairwise_singleton _ _
  cases instruction with
  | goto condition target => exact branch condition
  | assume condition => exact branch condition
  | decl object => exact List.pairwise_singleton _ _
  | assign target value => exact List.pairwise_singleton _ _
  | ret value =>
    cases value with
    | none => exact .nil
    | some value => exact List.pairwise_singleton _ _
  | _ => exact .nil

/-- The definitions of one location can be worked off in order. -/
private theorem equalitiesAt_pairwise {loc : Nat} {instruction : Instruction}
    (here : frame.body[loc]? = some instruction) :
    (frame.equalitiesAt loc instruction).Pairwise Equality.Precedes := by
  have inside := (List.getElem?_eq_some_iff.mp here).1
  refine List.pairwise_append.mpr ⟨?_, List.pairwise_cons.mpr ⟨?_, ?_⟩, ?_⟩
  · refine List.pairwise_filterMap.mpr ?_
    refine (proper.mergedObjects_pairwise inside).imp_of_mem ?_
    intro first second isFirst isSecond apart e found later found'
    obtain ⟨value, chosen, rfl⟩ := Option.map_eq_some_iff.mp found
    obtain ⟨value', chosen', rfl⟩ := Option.map_eq_some_iff.mp found'
    have defines := proper.phi_defines inside isFirst chosen
    have defines' := proper.phi_defines inside isSecond chosen'
    refine defines.precedes defines' (fun same => apart ?_) (Nat.le_refl _)
    exact (Name.phi.inj same).1
  · intro later member
    obtain ⟨name, defines, rank⟩ := proper.effect_defines here member
    have above : frame.rank (.guard loc) < frame.rank name := by
      rw [rank]
      exact Nat.lt_succ_self _
    refine (proper.guard_defines loc).precedes defines ?_ (Nat.le_of_lt above)
    rintro rfl
    exact Nat.lt_irrefl _ above
  · exact effectEqualities_pairwise instruction _
  · intro e member later rest
    obtain ⟨object, isMerged, value, chosen, rfl⟩ := mem_mergeEqualities.mp member
    have defines := proper.phi_defines inside isMerged chosen
    rcases List.mem_cons.mp rest with rfl | effect
    · exact defines.precedes (proper.guard_defines loc) nofun (Nat.le_refl _)
    · obtain ⟨name, defines', rank⟩ := proper.effect_defines here effect
      have above : frame.rank (.phi object.name loc) < frame.rank name := by
        rw [rank]
        exact Nat.lt_succ_self _
      refine defines.precedes defines' ?_ (Nat.le_of_lt above)
      rintro rfl
      exact Nat.lt_irrefl _ above

/-- The definitions of all locations can be worked off in order. -/
theorem ordered : Ordered frame.equalities := by
  refine ⟨?_, ?_, ?_⟩
  · intro e member
    obtain ⟨loc, instruction, here, member⟩ := frame.mem_equalities.mp member
    obtain ⟨name, defines, -⟩ := proper.equalitiesAt_defines here member
    exact defines.isWellSorted
  · intro e member
    obtain ⟨loc, instruction, here, member⟩ := frame.mem_equalities.mp member
    obtain ⟨name, defines, -⟩ := proper.equalitiesAt_defines here member
    exact defines.not_mem_occurrences defines (Nat.le_refl _)
  · refine List.pairwise_flatMap.mpr ⟨?_, (Flow.zipIdx_pairwise frame.body).imp_of_mem ?_⟩
    · rintro ⟨instruction, loc⟩ located
      exact proper.equalitiesAt_pairwise (List.mem_zipIdx_iff_getElem?.mp located)
    · rintro ⟨first, loc⟩ ⟨second, next⟩ located located' ahead e member later member'
      obtain ⟨name, defines, -, upper⟩ :=
        proper.equalitiesAt_defines (List.mem_zipIdx_iff_getElem?.mp located) member
      obtain ⟨name', defines', lower, -⟩ :=
        proper.equalitiesAt_defines (List.mem_zipIdx_iff_getElem?.mp located') member'
      have above : frame.rank name < frame.rank name' := by
        dsimp only at ahead
        omega
      refine defines.precedes defines' ?_ (Nat.le_of_lt above)
      rintro rfl
      exact Nat.lt_irrefl _ above

end Proper

end Frame

end TemplateAnalysis
