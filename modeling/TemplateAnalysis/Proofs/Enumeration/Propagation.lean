import TemplateAnalysis.Proofs.Enumeration.Problems

/-! # Computing definitions

Computing definitions only ever adds a symbol without a value, with the value of its right side.
Every pass but the last adds one, so there are passes enough to leave no definition uncomputed that
could be computed. A total assignment that solves the definitions is kept all the way: where it
agrees with a model, it agrees with all that is computed from it. Removing the symbols that were
computed gives back the model from which they were computed.
-/

namespace TemplateAnalysis

namespace Model

variable {model later : Model} {s : Symbol} {x : Value}

theorem valuation_cons (s : Symbol) (x : Value) (model : Model) (t : Symbol) :
    Model.valuation ((s, x) :: model) t = if t = s then some x else model.valuation t := by
  rw [valuation, List.lookup_cons]
  by_cases same : t = s
  · simp [same]
  · rw [if_neg same, beq_false_of_ne same]
    rfl

/-- A value for a symbol that has none changes no value. -/
theorem extends_cons (unknown : model.valuation s = none) (x : Value) :
    (Model.valuation ((s, x) :: model)).Extends model.valuation := by
  intro t y known
  rw [valuation_cons, if_neg, known]
  rintro rfl
  rw [unknown] at known
  cases known

/-- There is nothing to remove for a symbol without a value. -/
theorem remove_of_unknown (unknown : model.valuation s = none) : model.remove s = model := by
  refine List.filter_eq_self.mpr fun binding isBinding => ?_
  have other := List.lookup_eq_none_iff.mp unknown binding isBinding
  rw [bne_comm]
  simpa using other

theorem remove_cons_self (unknown : model.valuation s = none) (x : Value) :
    Model.remove ((s, x) :: model) s = model := by
  rw [remove, List.filter_cons_of_neg (by simp)]
  exact remove_of_unknown unknown

/-- Removing other symbols leaves a value where it is. -/
theorem foldl_remove_cons {symbols : List Symbol} (others : ∀ t ∈ symbols, s ≠ t) (x : Value)
    (model : Model) : symbols.foldl remove ((s, x) :: model) =
      (s, x) :: symbols.foldl remove model := by
  induction symbols generalizing model with
  | nil => rfl
  | cons t rest ih =>
    have apart : s ≠ t := others t List.mem_cons_self
    have first : Model.remove ((s, x) :: model) t = (s, x) :: model.remove t :=
      List.filter_cons_of_pos (by simpa using apart)
    rw [List.foldl_cons, List.foldl_cons, first]
    exact ih (fun u member => others u (List.mem_cons_of_mem _ member)) _

/-- How many of the symbols have no value. -/
def gaps (symbols : List Symbol) (model : Model) : Nat :=
  symbols.countP fun s => (model.valuation s).isNone

/-- More values leave no new gaps. -/
theorem gaps_le (more : later.valuation.Extends model.valuation) (symbols : List Symbol) :
    gaps symbols later ≤ gaps symbols model := by
  refine List.countP_mono_left fun t _ isNone => ?_
  cases value : model.valuation t with
  | none => rfl
  | some y =>
    rw [more t y value] at isNone
    cases isNone

/-- A value for one more symbol closes a gap. -/
theorem gaps_lt {symbols : List Symbol} (more : later.valuation.Extends model.valuation)
    (member : s ∈ symbols) (unknown : model.valuation s = none)
    (known : later.valuation s = some x) : gaps symbols later < gaps symbols model := by
  obtain ⟨front, back, rfl⟩ := List.append_of_mem member
  have before := gaps_le more front
  have after := gaps_le more back
  simp only [gaps, List.countP_append, List.countP_cons, unknown, known, Option.isNone_some,
    Option.isNone_none, if_true, Bool.false_eq_true, if_false] at before after ⊢
  omega

end Model

/-- A valuation that extends a model and has one more value also extends the longer model. -/
theorem Valuation.Extends.cons {v : Valuation} {model : Model} (more : v.Extends model.valuation)
    {s : Symbol} {x : Value} (value : v s = some x) :
    v.Extends (Model.valuation ((s, x) :: model)) := by
  intro t y known
  rw [Model.valuation_cons] at known
  split at known
  · next same => rw [same, value, known]
  · exact more t y known

namespace Enumeration.Problem

variable {problem : Problem} {state later : Propagation}

/-- What computing definitions, one after the other, makes of a model. -/
inductive Computes (problem : Problem) (state : Propagation) : Propagation → Prop
  | start : Computes problem state state
  | next {later : Propagation} {s : Symbol} {rhs : Expr} {x : Value}
      (earlier : Computes problem state later) (isDefinition : (s, rhs) ∈ problem.definitions)
      (unknown : later.model.valuation s = none)
      (value : rhs.eval later.model.valuation = some x) :
      Computes problem state (later.compute s x)

/-- No definition is left that could be computed. -/
def IsPropagated (problem : Problem) (v : Valuation) : Prop :=
  ∀ s rhs, (s, rhs) ∈ problem.definitions → v s = none → rhs.eval v = none

namespace Computes

theorem trans {last : Propagation} (first : problem.Computes state later)
    (second : problem.Computes later last) : problem.Computes state last := by
  induction second with
  | start => exact first
  | next _ isDefinition unknown value ih => exact ih.next isDefinition unknown value

/-- What is computed keeps all values. -/
theorem keeps (computes : problem.Computes state later) :
    later.model.valuation.Extends state.model.valuation := by
  induction computes with
  | start => exact fun _ _ known => known
  | next _ _ unknown _ ih => exact fun t x known => Model.extends_cons unknown _ t x (ih t x known)

theorem length_le (computes : problem.Computes state later) :
    state.derived.length ≤ later.derived.length := by
  induction computes with
  | start => exact Nat.le_refl _
  | next _ _ _ _ ih =>
    rw [Propagation.compute, List.length_append]
    exact Nat.le_add_right_of_le ih

/-- An assignment that solves the definitions agrees with all that is computed from them. -/
theorem agrees {m : Assignment}
    (solves : ∀ d ∈ problem.definitions, (equationOf d).eval m.valuation = some (.bool true))
    (computes : problem.Computes state later)
    (agrees : m.valuation.Extends state.model.valuation) :
    m.valuation.Extends later.model.valuation := by
  induction computes with
  | start => exact agrees
  | @next later s rhs x _ isDefinition _ value ih =>
    obtain ⟨left, right, evalLeft, evalRight, same⟩ :=
      Expr.eval_equation_iff.mp (solves _ isDefinition)
    rw [Expr.eval_mono ih value] at evalRight
    cases evalRight
    rw [of_decide_eq_true (Value.bool.inj same).symm] at evalLeft
    exact ih.cons evalLeft

/-- The symbols that were computed have values; removing them, in the order in which they were
computed, gives back the model from which they were computed. -/
theorem takenBack (computes : problem.Computes state later) :
    ∃ added, later.derived = state.derived ++ added ∧
      (∀ s ∈ added, later.model.valuation s ≠ none) ∧
      added.foldl Model.remove later.model = state.model := by
  induction computes with
  | start =>
    exact ⟨[], (List.append_nil _).symm, fun _ member => absurd member List.not_mem_nil, rfl⟩
  | @next later s rhs x earlier _ unknown _ ih =>
    obtain ⟨added, derived, valued, back⟩ := ih
    have before : state.model.valuation s = none := by
      cases known : state.model.valuation s with
      | none => rfl
      | some y =>
        rw [earlier.keeps s y known] at unknown
        cases unknown
    have others : ∀ t ∈ added, s ≠ t := by
      rintro t isAdded rfl
      exact valued s isAdded unknown
    refine ⟨added ++ [s], ?_, List.forall_mem_append.mpr ⟨fun t isAdded => ?_, ?_⟩, ?_⟩
    · rw [Propagation.compute, derived, List.append_assoc]
    · obtain ⟨y, value⟩ := Option.ne_none_iff_exists'.mp (valued t isAdded)
      rw [Propagation.compute, Model.extends_cons unknown x t y value]
      exact Option.some_ne_none y
    · rw [List.forall_mem_singleton, Propagation.compute, Model.valuation_cons, if_pos rfl]
      exact Option.some_ne_none x
    · -- the symbol computed last stands in front of the others until it is removed itself
      rw [Propagation.compute, List.foldl_append, Model.foldl_remove_cons others, back]
      exact Model.remove_cons_self before x

end Computes

theorem computes_pass {definitions : List (Symbol × Expr)}
    (within : definitions ⊆ problem.definitions) (state : Propagation) :
    problem.Computes state (pass definitions state) := by
  induction definitions generalizing state with
  | nil => exact .start
  | cons d rest ih =>
    have later := ih fun other member => within (List.mem_cons_of_mem _ member)
    rw [pass, List.foldl_cons]
    dsimp only
    split
    · exact later state
    · next unknown =>
      split
      · next value =>
        exact (Computes.start.next (within List.mem_cons_self) unknown value).trans (later _)
      · exact later state

/-- A pass that computes nothing finds no definition that could be computed; any other closes a
gap. -/
theorem pass_cases (definitions : List (Symbol × Expr)) (state : Propagation) :
    (pass definitions state = state ∧ ∀ s rhs, (s, rhs) ∈ definitions →
      state.model.valuation s = none → rhs.eval state.model.valuation = none) ∨
    (state.derived.length < (pass definitions state).derived.length ∧
      ∃ s ∈ definitions.map (·.1), ∃ x, state.model.valuation s = none ∧
        (pass definitions state).model.valuation s = some x) := by
  induction definitions with
  | nil => exact .inl ⟨rfl, fun _ _ member => absurd member List.not_mem_nil⟩
  | cons d rest ih =>
    obtain ⟨s, rhs⟩ := d
    -- where the first definition adds nothing, the pass goes on with the others
    have skip : (state.model.valuation s = none → rhs.eval state.model.valuation = none) →
        pass ((s, rhs) :: rest) state = pass rest state := by
      intro stuck
      rw [pass, List.foldl_cons]
      dsimp only
      split
      · rfl
      · next unknown =>
        rw [stuck unknown]
        rfl
    by_cases stuck : state.model.valuation s = none → rhs.eval state.model.valuation = none
    · rw [skip stuck]
      refine ih.imp ?_ ?_
      · rintro ⟨same, none⟩
        refine ⟨same, fun t other member unknown => ?_⟩
        rcases List.mem_cons.mp member with first | isRest
        · cases first
          exact stuck unknown
        · exact none t other isRest unknown
      · rintro ⟨longer, t, isRest, x, unknown, known⟩
        exact ⟨longer, t, List.mem_cons_of_mem _ isRest, x, unknown, known⟩
    · simp only [Classical.not_imp] at stuck
      obtain ⟨unknown, computable⟩ := stuck
      obtain ⟨x, value⟩ := Option.ne_none_iff_exists'.mp computable
      have first : pass ((s, rhs) :: rest) state = pass rest (state.compute s x) := by
        rw [pass, List.foldl_cons]
        dsimp only
        rw [unknown, value]
        rfl
      have computes : Problem.Computes { definitions := rest } (state.compute s x)
          (pass rest (state.compute s x)) := computes_pass (List.Subset.refl _) _
      have longer := computes.length_le
      rw [Propagation.compute, List.length_append, List.length_singleton] at longer
      rw [first]
      refine .inr ⟨longer, s, List.mem_cons_self, x, unknown, ?_⟩
      exact computes.keeps s x (by rw [Propagation.compute, Model.valuation_cons, if_pos rfl])

theorem computes_passes (n : Nat) (state : Propagation) :
    problem.Computes state (passes problem.definitions n state) := by
  induction n generalizing state with
  | zero => exact .start
  | succ n ih =>
    unfold passes
    dsimp only
    split
    · exact .start
    · exact (computes_pass (List.Subset.refl _) state).trans (ih _)

theorem isPropagated_passes {n : Nat} {state : Propagation}
    (enough : Model.gaps (problem.definitions.map (·.1)) state.model ≤ n) :
    problem.IsPropagated (passes problem.definitions n state).model.valuation := by
  induction n generalizing state with
  | zero =>
    intro s rhs isDefinition unknown
    have none : Model.gaps (problem.definitions.map (·.1)) state.model = 0 := Nat.le_zero.mp enough
    have known := List.countP_eq_zero.mp none s (List.mem_map.mpr ⟨_, isDefinition, rfl⟩)
    change state.model.valuation s = Option.none at unknown
    simp [unknown] at known
  | succ n ih =>
    unfold passes
    dsimp only
    rcases pass_cases problem.definitions state with ⟨same, none⟩ | ⟨longer, s, member, x, gap⟩
    · rw [same, if_pos rfl]
      exact none
    · rw [if_neg (by omega)]
      have more := (computes_pass (List.Subset.refl problem.definitions) state).keeps
      have fewer := Model.gaps_lt more member gap.1 gap.2
      exact ih (by omega)

theorem computes_propagate (problem : Problem) (model : Model) :
    problem.Computes { model } (problem.propagate model) := computes_passes _ _

theorem isPropagated_propagate (problem : Problem) (model : Model) :
    problem.IsPropagated (problem.propagate model).model.valuation := by
  apply isPropagated_passes
  have all := List.countP_le_length (l := problem.definitions.map (·.1))
    (p := fun s => (model.valuation s).isNone)
  rwa [List.length_map] at all

/-- Removing what was computed gives back the model. -/
theorem remove_derived (problem : Problem) (model : Model) :
    (problem.propagate model).derived.foldl Model.remove (problem.propagate model).model =
      model := by
  obtain ⟨added, derived, -, back⟩ := (computes_propagate problem model).takenBack
  rw [derived]
  exact back

end Enumeration.Problem

end TemplateAnalysis
