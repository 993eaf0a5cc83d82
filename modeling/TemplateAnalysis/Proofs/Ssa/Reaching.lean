import Mathlib.Data.List.Basic
import TemplateAnalysis.Proofs.Ssa.Frame

/-! # Where values come from

The definitions at a location form a function of the objects. It is determined by the definitions
after the sources of the forward edges: what is assigned in a loop is merged at the loop head, and
everything else is merged where different definitions arrive. A definition never comes from a later
location.
-/

namespace TemplateAnalysis

section Tables

variable {α β : Type}

/-- A list that grows by what a function makes of the part built so far. -/
theorem getElem?_foldl_concat (f : List β → α → β) (xs : List α) :
    (xs.foldl (fun built x => built ++ [f built x]) []).length = xs.length ∧
      ∀ i x, xs[i]? = some x → (xs.foldl (fun built x => built ++ [f built x]) [])[i]? =
        some (f ((xs.foldl (fun built x => built ++ [f built x]) []).take i) x) := by
  induction xs using List.reverseRecOn with
  | nil => simp
  | append_singleton xs last ih =>
    obtain ⟨length, entries⟩ := ih
    simp only [List.foldl_append, List.foldl_cons, List.foldl_nil]
    refine ⟨by simp [length], ?_⟩
    intro i x here
    by_cases earlier : i < xs.length
    · rw [List.getElem?_append_left earlier] at here
      rw [List.getElem?_append_left (by omega), List.take_append_of_le_length (by omega)]
      exact entries i x here
    · obtain ⟨inside, -⟩ := List.getElem?_eq_some_iff.mp here
      obtain rfl : i = xs.length := by simp at inside; omega
      obtain rfl : last = x := by simpa using here
      rw [← length]
      simp

end Tables

namespace Definitions

variable {objects : List Symbol}

/-- In a table with one entry for each object, the entry of an object is found by its name. -/
theorem find?_map_of_nodup (names : (objects.map (·.name)).Nodup) (d : Symbol → Definition)
    {object : Symbol} (member : object ∈ objects) :
    find? (objects.map fun o => (o, d o)) object.name = some (object, d object) := by
  induction objects with
  | nil => cases member
  | cons first rest ih =>
    simp only [List.map_cons, List.nodup_cons, List.mem_map, not_exists, not_and] at names
    rcases List.mem_cons.mp member with rfl | later
    · simp [find?]
    · have other : first.name ≠ object.name := fun same => names.1 object later same.symm
      have rest := ih names.2 later
      simpa [find?, other] using rest

end Definitions

namespace Frame

variable (frame : Frame)

/-- Where the value of an object before a location comes from. -/
def definitionBefore (loc : Nat) (object : Symbol) : Definition :=
  match frame.reaching[loc]? with
  | some reach => ((reach.before.find? object.name).map (·.2)).getD .input
  | none => .input

/-- Where the value of an object after a location comes from. -/
def definitionAfter (loc : Nat) (object : Symbol) : Definition :=
  match frame.reaching[loc]? with
  | some reach => ((reach.after.find? object.name).map (·.2)).getD .input
  | none => .input

/-- The object is assigned in the loops of a head. -/
def isLooped (loc : Nat) (object : Symbol) : Bool :=
  frame.flow.isHead loc &&
    (Reach.loopAssigns frame.body frame.flow frame.globals loc).contains object.name

/-- The definitions that arrive at a location over its forward edges, or on entry. -/
def arriving (loc : Nat) : List (Symbol → Definition) :=
  if loc = 0 then [fun _ => .input]
  else (frame.flow.forwardPreds loc).map frame.definitionAfter

namespace Regular

variable {frame : Frame} {table : SymbolTable} (regular : frame.Regular table)
include regular

theorem reaching_at {loc : Nat} {instruction : Instruction}
    (here : frame.body[loc]? = some instruction) :
    frame.reaching[loc]? = some (Reach.through frame.body frame.flow frame.objects frame.globals
      (frame.reaching.take loc) loc instruction) := by
  have entries := (getElem?_foldl_concat (fun earlier (entry : Instruction × Nat) =>
    Reach.through frame.body frame.flow frame.objects frame.globals earlier entry.2 entry.1)
    frame.body.zipIdx).2 loc (instruction, loc) (by simp [here])
  rw [regular.reaching_eq]
  exact entries

theorem length_reaching : frame.reaching.length = frame.body.length := by
  have length := (getElem?_foldl_concat (fun earlier (entry : Instruction × Nat) =>
    Reach.through frame.body frame.flow frame.objects frame.globals earlier entry.2 entry.1)
    frame.body.zipIdx).1
  rw [regular.reaching_eq]
  simpa [Reach.all] using length

theorem pred_lt {loc next : Nat} (pred : loc ∈ frame.flow.forwardPreds next) :
    loc < next ∧ next < frame.body.length := by
  rw [regular.flow_eq] at pred
  obtain ⟨edge, ahead⟩ := Flow.mem_forwardPreds.mp pred
  exact ⟨ahead, regular.accepted.edge_lt edge⟩

/-- The definitions at a location are a table of all objects. -/
theorem tables {loc : Nat} {reach : Reach} (found : frame.reaching[loc]? = some reach) :
    (∃ d : Symbol → Definition, reach.before = frame.objects.map fun o => (o, d o)) ∧
      ∃ d : Symbol → Definition, reach.after = frame.objects.map fun o => (o, d o) := by
  induction loc using Nat.strongRecOn generalizing reach with
  | ind loc ih =>
    obtain ⟨inside, -⟩ := List.getElem?_eq_some_iff.mp found
    rw [regular.length_reaching] at inside
    have here := List.getElem?_eq_getElem inside
    rw [regular.reaching_at here] at found
    cases found
    have before : ∃ d : Symbol → Definition, Reach.merge frame.body frame.flow frame.objects
        frame.globals (frame.reaching.take loc) loc = frame.objects.map fun o => (o, d o) := by
      unfold Reach.merge
      dsimp only
      split
      · next only single =>
        split
        · exact ⟨_, rfl⟩
        · -- the only source passes its table on
          split at single
          · cases single
            exact ⟨_, rfl⟩
          · have member : only ∈ [only] := List.mem_singleton_self only
            rw [← single] at member
            obtain ⟨pred, isPred, found⟩ := List.mem_filterMap.mp member
            have earlier := (regular.pred_lt isPred).1
            rw [List.getElem?_take_of_lt earlier] at found
            obtain ⟨reach, reached, rfl⟩ := Option.map_eq_some_iff.mp found
            exact (ih pred earlier reached).2
      · exact ⟨_, rfl⟩
    refine ⟨before, ?_⟩
    obtain ⟨d, same⟩ := before
    simp only [Reach.through, same, Definitions.assign, List.map_map]
    exact ⟨_, rfl⟩

theorem before_eq {loc : Nat} {reach : Reach} (found : frame.reaching[loc]? = some reach) :
    reach.before = frame.objects.map fun o => (o, frame.definitionBefore loc o) := by
  obtain ⟨d, same⟩ := (regular.tables found).1
  rw [same]
  refine List.map_congr_left fun object member => ?_
  have entry := Definitions.find?_map_of_nodup regular.names_nodup d member
  simp [definitionBefore, found, same, entry]

theorem after_eq {loc : Nat} {reach : Reach} (found : frame.reaching[loc]? = some reach) :
    reach.after = frame.objects.map fun o => (o, frame.definitionAfter loc o) := by
  obtain ⟨d, same⟩ := (regular.tables found).2
  rw [same]
  refine List.map_congr_left fun object member => ?_
  have entry := Definitions.find?_map_of_nodup regular.names_nodup d member
  simp [definitionAfter, found, same, entry]

/-- The reach of a location of the body. -/
theorem exists_reach {loc : Nat} (inside : loc < frame.body.length) :
    ∃ reach, frame.reaching[loc]? = some reach := by
  rw [← regular.length_reaching] at inside
  exact ⟨_, List.getElem?_eq_getElem inside⟩

theorem find?_before {loc : Nat} {reach : Reach} (found : frame.reaching[loc]? = some reach)
    {object : Symbol} (member : object ∈ frame.objects) :
    reach.before.find? object.name = some (object, frame.definitionBefore loc object) := by
  rw [regular.before_eq found]
  exact Definitions.find?_map_of_nodup regular.names_nodup _ member

/-- The version of an object before a location. -/
theorem readBefore?_eq {loc : Nat} (inside : loc < frame.body.length) {object : Symbol}
    (member : object ∈ frame.objects) :
    frame.readBefore? object.name loc =
      some ((frame.definitionBefore loc object).version object) := by
  obtain ⟨reach, found⟩ := regular.exists_reach inside
  simp [readBefore?, found, Definitions.version?, regular.find?_before found member]

/-- The version of an object after a location. -/
theorem readAfter?_eq {loc : Nat} (inside : loc < frame.body.length) {object : Symbol}
    (member : object ∈ frame.objects) :
    frame.readAfter? object.name loc =
      some ((frame.definitionAfter loc object).version object) := by
  obtain ⟨reach, found⟩ := regular.exists_reach inside
  have entry : reach.after.find? object.name = some (object, frame.definitionAfter loc object) := by
    rw [regular.after_eq found]
    exact Definitions.find?_map_of_nodup regular.names_nodup _ member
  simp [readAfter?, found, Definitions.version?, entry]

theorem mem_mergedObjects {loc : Nat} (inside : loc < frame.body.length) {object : Symbol} :
    object ∈ frame.mergedObjects loc ↔
      object ∈ frame.objects ∧ frame.definitionBefore loc object = .merged loc := by
  obtain ⟨reach, found⟩ := regular.exists_reach inside
  simp only [mergedObjects, found, regular.before_eq found, Definitions.mergedAt]
  simp

/-- Merged objects have different names. -/
theorem mergedObjects_pairwise {loc : Nat} (inside : loc < frame.body.length) :
    (frame.mergedObjects loc).Pairwise fun first second => first.name ≠ second.name := by
  obtain ⟨reach, found⟩ := regular.exists_reach inside
  have names : frame.objects.Pairwise fun first second => first.name ≠ second.name :=
    List.pairwise_map.mp regular.names_nodup
  simp only [mergedObjects, found, regular.before_eq found, Definitions.mergedAt,
    List.filterMap_map]
  refine List.pairwise_filterMap.mpr (names.imp fun {first second} apart => ?_)
  intro kept isKept kept' isKept'
  simp only [Function.comp_apply, Option.ite_none_right_eq_some, Option.some.injEq]
    at isKept isKept'
  rw [← isKept.2, ← isKept'.2]
  exact apart

/-- An instruction defines what it assigns and passes on all else. -/
theorem definitionAfter_eq {loc : Nat} {instruction : Instruction}
    (here : frame.body[loc]? = some instruction) {object : Symbol}
    (member : object ∈ frame.objects) :
    frame.definitionAfter loc object =
      if (instruction.assigns frame.globals).contains object.name then .assigned loc
      else frame.definitionBefore loc object := by
  have found := regular.reaching_at here
  have before := regular.before_eq found
  have after := regular.after_eq found
  simp only [Reach.through] at before after
  rw [before, Definitions.assign, List.map_map, List.map_inj_left] at after
  exact ((Prod.mk.inj (after object member)).2).symm

/-- The tables of definitions that arrive at a location. -/
private theorem incoming_eq {loc : Nat} :
    (if loc = 0 then [Definitions.inputs frame.objects]
      else (frame.flow.forwardPreds loc).filterMap fun pred =>
        (frame.reaching.take loc)[pred]?.map (·.after)) =
      (frame.arriving loc).map fun d => frame.objects.map fun o => (o, d o) := by
  unfold arriving
  split
  · rfl
  · rw [List.map_map]
    have known : ∀ pred ∈ frame.flow.forwardPreds loc,
        (frame.reaching.take loc)[pred]?.map (·.after) =
          some (frame.objects.map fun o => (o, frame.definitionAfter pred o)) := by
      intro pred isPred
      obtain ⟨earlier, inside⟩ := regular.pred_lt isPred
      obtain ⟨reach, found⟩ := regular.exists_reach (Nat.lt_trans earlier inside)
      rw [List.getElem?_take_of_lt earlier, found, Option.map_some, regular.after_eq found]
    rw [List.filterMap_congr known]
    simp [Function.comp_def]

/-- The value of an object before a location is determined by what arrives there. -/
theorem definitionBefore_eq {loc : Nat} (inside : loc < frame.body.length) {object : Symbol}
    (member : object ∈ frame.objects) :
    frame.definitionBefore loc object = Reach.mergeOne loc (frame.isLooped loc object)
      ((frame.arriving loc).map fun d => d object) := by
  have before := regular.before_eq (regular.reaching_at (List.getElem?_eq_getElem inside))
  simp only [Reach.through, Reach.merge, regular.incoming_eq] at before
  have arriving : ∀ ds : List (Symbol → Definition),
      Reach.arriving (ds.map fun d => frame.objects.map fun o => (o, d o)) object =
        ds.map fun d => d object := by
    intro ds
    rw [Reach.arriving, List.filterMap_map, ← List.filterMap_eq_map]
    refine List.filterMap_congr fun d _ => ?_
    simp [Definitions.find?_map_of_nodup regular.names_nodup d member]
  have looped : frame.isLooped loc object = (if frame.flow.isHead loc then
      Reach.loopAssigns frame.body frame.flow frame.globals loc else []).contains object.name := by
    cases head : frame.flow.isHead loc <;> simp [isLooped, head]
  rw [looped]
  split at before
  · next only single =>
    split at before
    · next isHead =>
      rw [List.map_inj_left] at before
      have same := (Prod.mk.inj (before object member)).2
      rw [if_pos isHead, ← arriving]
      exact same.symm
    · -- a single definition that is not looped is passed on
      next notHead =>
      obtain ⟨d, ds, rfl⟩ := List.map_eq_singleton_iff.mp single
      rw [List.map_inj_left] at before
      have same := (Prod.mk.inj (before object member)).2
      simp [ds, notHead, Reach.mergeOne, same]
  · rw [List.map_inj_left] at before
    have same := (Prod.mk.inj (before object member)).2
    rw [← arriving]
    exact same.symm

/-- An object is merged at a location, or all that arrives there is the same. -/
theorem definitionBefore_cases {loc : Nat} (inside : loc < frame.body.length) {object : Symbol}
    (member : object ∈ frame.objects) :
    frame.definitionBefore loc object = .merged loc ∨
      frame.isLooped loc object = false ∧
        (∀ d ∈ frame.arriving loc, d object = frame.definitionBefore loc object) ∧
        (frame.arriving loc = [] → frame.definitionBefore loc object = .input) := by
  rw [regular.definitionBefore_eq inside member]
  cases looped : frame.isLooped loc object with
  | true =>
    left
    cases frame.arriving loc <;> simp [Reach.mergeOne]
  | false =>
    cases arrived : frame.arriving loc with
    | nil => exact .inr ⟨rfl, by simp, by simp [Reach.mergeOne]⟩
    | cons first rest =>
      have merged : Reach.mergeOne loc false ((first :: rest).map fun d => d object) =
          if ∀ d ∈ rest, d object = first object then first object else .merged loc := by
        simp [Reach.mergeOne]
      rw [merged]
      by_cases same : ∀ d ∈ rest, d object = first object
      · rw [if_pos same]
        exact .inr ⟨rfl, List.forall_mem_cons.mpr ⟨rfl, same⟩, nofun⟩
      · exact .inl (if_neg same)

end Regular

end Frame

end TemplateAnalysis
