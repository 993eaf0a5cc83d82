import TemplateAnalysis.Proofs.Solver.Restoration

/-! # What the calls to a domain keep

A run changes the search and the value of a domain by calls only. What every call keeps while a
round is open, and what opening and closing a round make of it, hold after any number of rounds,
whatever the session answers and however the last query ended, unless it was abandoned at a row
without an entry. A query is not abandoned if no call is.
-/

namespace TemplateAnalysis

namespace TemplateDomain

variable {δ ι V : Type} [TemplateDomain δ ι V]

/-- What holds of the search and the value between rounds, and within a round whatever the domain
is told. -/
structure Keeps (template : δ) (Between Within : ι → V → Prop) : Prop where
  beginRound : ∀ {search : ι} {value : V}, Between search value →
    Within (TemplateDomain.beginRound δ V search) value
  refute : ∀ {search : ι} {value : V}, Within search value → ∀ (m : Valuation) (row : Nat),
    Within (TemplateDomain.refute template m row search value).search
      (TemplateDomain.refute template m row search value).value
  confirm : ∀ {search : ι} {value : V}, Within search value →
    Within (TemplateDomain.confirm template search value).search
      (TemplateDomain.confirm template search value).value
  giveUp : ∀ {search : ι} {value : V}, Within search value →
    Within (TemplateDomain.giveUp template search value).search
      (TemplateDomain.giveUp template search value).value
  endRound : ∀ {search : ι} {value : V}, Within search value →
    Between (TemplateDomain.endRound δ V search) value

/-- No question to the domain is abandoned within a round. -/
structure Responds (template : δ) (Within : ι → V → Prop) : Prop where
  assumption : ∀ {search : ι} {value : V}, Within search value →
    Returns (TemplateDomain.assumption template search value)
  violations : ∀ {search : ι} {value : V}, Within search value →
    Returns (TemplateDomain.violations template search value)
  refute : ∀ {search : ι} {value : V}, Within search value → ∀ (m : Valuation) (row : Nat),
    Returns (TemplateDomain.refute template m row search value).outcome
  confirm : ∀ {search : ι} {value : V}, Within search value →
    Returns (TemplateDomain.confirm template search value).outcome
  giveUp : ∀ {search : ι} {value : V}, Within search value →
    Returns (TemplateDomain.giveUp template search value).outcome

end TemplateDomain

theorem returns_solver {α : Type} (error : SolverError) :
    Returns (.error (.solver error) : Except Failure α) := by
  rintro row ⟨⟩

theorem returns_map {α β : Type} (f : α → β) {outcome : Except Failure α}
    (returns : Returns outcome) : Returns (outcome.map f) := by
  cases outcome with
  | error failure => exact returns_error returns
  | ok a => exact returns_ok _

namespace Run

open TemplateDomain (Keeps Responds)

variable {δ ι V σ : Type} [TemplateDomain δ ι V] {template : δ} {Between Within : ι → V → Prop}

/-- The search and the value of the run stand as the condition says. -/
def Stands (condition : ι → V → Prop) (run : Run ι V σ) : Prop := condition run.search run.value

variable [Solver σ] {run : Run ι V σ}

theorem stands_pose (template : δ) (stands : run.Stands Within) :
    (run.pose template).2.Stands Within := by
  obtain ⟨search, value⟩ := pose_fixes template run
  rw [Stands, search, value]
  exact stands

section Stands

variable (keeps : Keeps template Between Within)

include keeps

theorem stands_refuteAll (rows : List (Nat × Symbol × Expr)) (stands : run.Stands Within) :
    (run.refuteAll template rows).2.Stands Within := by
  induction rows generalizing run with
  | nil => exact stands
  | cons first rest ih =>
    obtain ⟨row, literal, violation⟩ := first
    have told := keeps.refute stands (Solver.valuation run.session) row
    unfold refuteAll
    split
    · split
      · next adopted =>
        obtain ⟨-, rfl⟩ := Prod.mk.inj adopted
        exact told
      · next adopted =>
        obtain ⟨-, rfl⟩ := Prod.mk.inj adopted
        exact ih told
    · exact ih stands

theorem stands_settle (rows : List (Nat × Symbol × Expr)) (stands : run.Stands Within) :
    (run.settle template rows).2.Stands Within := by
  have asked : (run.assert (someViolated rows)).solve.2.Stands Within := stands
  unfold settle
  split
  · exact keeps.confirm stands
  · split
    · next solved =>
      obtain ⟨-, rfl⟩ := Prod.mk.inj solved
      exact asked
    · next solved =>
      obtain ⟨-, rfl⟩ := Prod.mk.inj solved
      exact stands_refuteAll keeps rows asked
    · next solved =>
      obtain ⟨-, rfl⟩ := Prod.mk.inj solved
      exact keeps.confirm stands
    · next solved =>
      obtain ⟨-, rfl⟩ := Prod.mk.inj solved
      exact keeps.giveUp stands

theorem stands_query (stands : run.Stands Within) : (run.query template).2.Stands Within := by
  have posed := stands_pose template stands
  unfold query
  generalize run.pose template = asking at posed ⊢
  obtain ⟨outcome, asking⟩ := asking
  cases outcome with
  | error failure => exact posed
  | ok rows => exact stands_settle keeps rows posed

theorem stands_iterate (stands : run.Stands Within) : (run.iterate template).2.Stands Within := by
  have opened : ({ run with iterations := run.iterations + 1 } : Run ι V σ).push.Stands Within :=
    stands
  have queried := stands_query keeps opened
  unfold iterate
  split
  · next asked =>
    rw [asked] at queried
    exact queried
  · next asked =>
    rw [asked] at queried
    exact queried
  · next stood asked =>
    rw [asked] at queried
    have closed : stood.pop.2.Stands Within := queried
    split
    · next popped =>
      rw [popped] at closed
      exact closed
    · next popped =>
      rw [popped] at closed
      exact closed

/-- A round that is not abandoned is closed. -/
theorem stands_round {outcome : Except Failure Bool} {next : Run ι V σ}
    (stands : run.Stands Between) (ended : run.round template = (outcome, next))
    (returns : Returns outcome) : next.Stands Between := by
  have begun : (run.beginRound δ).Stands Within := keeps.beginRound stands
  have iterated := stands_iterate keeps begun
  unfold round at ended
  split at ended
  · next row _ _ =>
    obtain ⟨rfl, -⟩ := Prod.mk.inj ended
    exact absurd rfl (returns row)
  · next answered =>
    obtain ⟨-, rfl⟩ := Prod.mk.inj ended
    rw [answered] at iterated
    exact keeps.endRound iterated

variable [FiniteDomain δ ι V]

/-- Whatever the session answers and however the iteration ends, the domain stands as it does
between rounds. -/
theorem stands_fixpoint (stands : run.Stands Between)
    (returns : Returns (run.fixpoint template).1) : (run.fixpoint template).2.Stands Between := by
  refine fixpoint_ends (Stands Between) (fun outcome last => Returns outcome → last.Stands Between)
    ?_ ?_ ?_ ?_ stands returns
  · intro run next failure stands _ failed returns
    exact stands_round keeps stands failed (returns_error returns)
  · intro run next stands _ answered
    exact stands_round keeps stands answered (returns_ok _)
  · intro run next stands _ answered _
    exact stands_round keeps stands answered (returns_ok _)
  · intro run stands _ _
    exact stands

end Stands

section Returns

variable (keeps : Keeps template Between Within) (responds : Responds template Within)

include responds in
theorem returns_pose (stands : run.Stands Within) : Returns (run.pose template).1 := by
  have assumed := responds.assumption stands
  have violated := responds.violations stands
  unfold pose
  split
  · next failed =>
    rw [failed] at assumed
    exact returns_error assumed
  · dsimp only [search_assert, value_assert]
    split
    · next failed =>
      rw [failed] at violated
      exact returns_error violated
    · exact returns_ok _

include keeps responds

theorem returns_refuteAll (rows : List (Nat × Symbol × Expr)) (stands : run.Stands Within) :
    Returns (run.refuteAll template rows).1 := by
  induction rows generalizing run with
  | nil => exact returns_ok _
  | cons first rest ih =>
    obtain ⟨row, literal, violation⟩ := first
    unfold refuteAll
    split
    · split
      · next adopted =>
        obtain ⟨outcome, -⟩ := Prod.mk.inj adopted
        rw [← outcome]
        exact responds.refute stands _ _
      · next adopted =>
        obtain ⟨-, rfl⟩ := Prod.mk.inj adopted
        exact returns_map _ (ih (keeps.refute stands _ _))
    · exact ih stands

theorem returns_settle (rows : List (Nat × Symbol × Expr)) (stands : run.Stands Within) :
    Returns (run.settle template rows).1 := by
  have asked : (run.assert (someViolated rows)).solve.2.Stands Within := stands
  unfold settle
  split
  · exact responds.confirm stands
  · split
    · exact returns_solver _
    · next solved =>
      obtain ⟨-, rfl⟩ := Prod.mk.inj solved
      exact returns_refuteAll keeps responds rows asked
    · next solved =>
      obtain ⟨-, rfl⟩ := Prod.mk.inj solved
      exact responds.confirm stands
    · next solved =>
      obtain ⟨-, rfl⟩ := Prod.mk.inj solved
      exact responds.giveUp stands

theorem returns_query (stands : run.Stands Within) : Returns (run.query template).1 := by
  have posed := stands_pose template stands
  have returns := returns_pose responds stands
  unfold query
  generalize run.pose template = asking at posed returns ⊢
  obtain ⟨outcome, asking⟩ := asking
  cases outcome with
  | error failure => exact returns_error returns
  | ok rows => exact returns_settle keeps responds rows posed

theorem returns_iterate (stands : run.Stands Within) : Returns (run.iterate template).1 := by
  have opened : ({ run with iterations := run.iterations + 1 } : Run ι V σ).push.Stands Within :=
    stands
  have queried := returns_query keeps responds opened
  unfold iterate
  split
  · next asked =>
    rw [asked] at queried
    exact queried
  · exact returns_solver _
  · split
    · exact returns_ok _
    · exact returns_solver _

theorem returns_round (stands : run.Stands Between) : Returns (run.round template).1 := by
  have begun : (run.beginRound δ).Stands Within := keeps.beginRound stands
  have iterated := returns_iterate keeps responds begun
  unfold round
  split
  · next answered =>
    rw [answered] at iterated
    exact iterated
  · next answered =>
    rw [answered] at iterated
    exact iterated

variable [FiniteDomain δ ι V]

/-- If no call is abandoned, an iteration returns. -/
theorem returns_fixpoint (stands : run.Stands Between) : Returns (run.fixpoint template).1 := by
  refine fixpoint_ends (Stands Between) (fun outcome _ => Returns outcome) ?_ ?_ ?_ ?_ stands
  · intro run next failure stands _ failed
    have returns := returns_round keeps responds stands
    rw [failed] at returns
    exact returns_error returns
  · intro run next stands _ answered
    exact stands_round keeps stands answered (returns_ok _)
  · exact fun _ _ _ _ _ => returns_ok _
  · exact fun _ _ _ => returns_ok _

end Returns

end Run

end TemplateAnalysis
