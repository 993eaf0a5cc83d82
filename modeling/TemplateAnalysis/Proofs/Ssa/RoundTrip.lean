import Mathlib.Data.Nat.Find
import TemplateAnalysis.Proofs.Ssa.Following

/-! # Round trips of executions that do not end

An execution that does not end comes back forever to some location, and stays from some time on at
or behind it. From then on it arrives there over back edges only, and every round trip has a model
in which the store at its start arrives over the first back edge of the head. The loop-select
literals do not exclude one another, so in the same model any other back edge may be selected as
well, with whatever arrives over it.
-/

namespace TemplateAnalysis

/-- A bounded sequence of numbers comes back forever to the least one that it keeps coming near. -/
theorem exists_recurrent {f : Nat → Nat} {bound : Nat} (below : ∀ n, f n < bound) :
    ∃ least start, (∀ n, start ≤ n → least ≤ f n) ∧ ∀ n, ∃ m, n ≤ m ∧ f m = least := by
  classical
  let Stays (least : Nat) : Prop := ∃ start, ∀ n, start ≤ n → least ≤ f n
  have zero : Stays 0 := ⟨0, fun _ _ => Nat.zero_le _⟩
  obtain ⟨start, stays⟩ : Stays (Nat.findGreatest Stays bound) :=
    Nat.findGreatest_spec (Nat.zero_le bound) zero
  refine ⟨Nat.findGreatest Stays bound, start, stays, fun n => ?_⟩
  by_contra never
  have never : ∀ m, n ≤ m → f m ≠ Nat.findGreatest Stays bound :=
    fun m late back => never ⟨m, late, back⟩
  -- a sequence that does not come back stays above
  have above : ∀ m, max start n ≤ m → Nat.findGreatest Stays bound + 1 ≤ f m := by
    intro m late
    have apart := never m (by omega)
    have stays := stays m (by omega)
    omega
  have inside : Nat.findGreatest Stays bound + 1 ≤ bound :=
    Nat.le_of_lt (Nat.lt_of_le_of_lt (above _ le_rfl) (below _))
  have more := Nat.le_findGreatest (P := Stays) inside ⟨_, above⟩
  omega

/-- From every late moment a sequence comes back to the least number, and is above it until then. -/
theorem exists_return {f : Nat → Nat} {least start : Nat} (stays : ∀ n, start ≤ n → least ≤ f n)
    (again : ∀ n, ∃ m, n ≤ m ∧ f m = least) {n : Nat} (late : start ≤ n) :
    ∃ m, n < m ∧ f (m + 1) = least ∧ ∀ k, n + 1 < k → k ≤ m → least < f k := by
  classical
  have visit : ∃ m, n < m ∧ f (m + 1) = least := by
    obtain ⟨k, after, visits⟩ := again (n + 2)
    exact ⟨k - 1, by omega, by rw [Nat.sub_add_cancel (by omega)]; exact visits⟩
  obtain ⟨less, returns⟩ := Nat.find_spec visit
  refine ⟨Nat.find visit, less, returns, fun k after upTo => ?_⟩
  have apart := Nat.find_min visit (m := k - 1) (by omega)
  rw [Nat.sub_add_cancel (by omega)] at apart
  exact Nat.lt_of_le_of_ne (stays k (by omega)) fun same => apart ⟨by omega, same.symm⟩

namespace Frame.Proper

variable {frame : Frame} {table : SymbolTable} (proper : frame.Proper table)
  {run : Nat → Configuration} (endless : Endless frame.body table run)
include proper endless

theorem exists_follows_run (n : Nat) : ∃ m, frame.Follows m (run n) := by
  induction n with
  | zero =>
    obtain ⟨m, follows, -⟩ := proper.exists_entry (run 0).store
    have entry : (⟨0, (run 0).store⟩ : Configuration) = run 0 :=
      congrArg (Configuration.mk · (run 0).store) endless.starts.symm
    exact ⟨m, entry ▸ follows⟩
  | succ n ih =>
    obtain ⟨m, follows⟩ := ih
    obtain ⟨c, step⟩ := endless.steps n
    obtain ⟨next, follows', -⟩ := proper.exists_step follows step
    exact ⟨next, follows'⟩

/-- Behind a head, nothing that belongs to the head changes. -/
theorem exists_follows_behind {m : Assignment} {head n : Nat} (follows : frame.Follows m (run n))
    (arrives : (run n).loc = head) {last : Nat} (le : n ≤ last)
    (behind : ∀ k, n < k → k ≤ last → head < (run k).loc) :
    ∃ m', frame.Follows m' (run last) ∧ frame.AgreeBelow (2 * head + 2) m m' := by
  induction last, le using Nat.le_induction with
  | base => exact ⟨m, follows, fun _ _ _ _ => rfl⟩
  | succ k le ih =>
    obtain ⟨m', follows', agree⟩ := ih fun j after upTo => behind j after (by omega)
    obtain ⟨c, step⟩ := endless.steps k
    obtain ⟨next, follows'', agree', -⟩ := proper.exists_step follows' step
    refine ⟨next, follows'', agree.trans (agree'.mono ?_)⟩
    have target := behind (k + 1) (by omega) le_rfl
    have source : head ≤ (run k).loc := by
      rcases Nat.lt_or_eq_of_le le with after | rfl
      · exact Nat.le_of_lt (behind k after (by omega))
      · exact Nat.le_of_eq arrives.symm
    omega

/-- A round trip from a head that was reached over a back edge, and back to it. -/
theorem exists_round_trip {head first : Nat} {others : List Nat}
    (backs : frame.flow.backEdges head = first :: others) {n m : Nat}
    (closed : head ≤ (run n).loc) (starts : (run (n + 1)).loc = head) (less : n < m)
    (behind : ∀ k, n + 1 < k → k ≤ m → head < (run k).loc) (returns : (run (m + 1)).loc = head) :
    (run m).loc ∈ frame.flow.backEdges head ∧
      ∃ model : Assignment, model.Solves frame.equalities ∧
        model.truth (Name.guard head).bool = true ∧
        model.truth (loopSelect (run m).loc) = true ∧
        frame.takes model (run m).loc head = true ∧
        ∀ object ∈ frame.objects,
          frame.valueAfter model (run m).loc object = (run (m + 1)).store object ∧
          model (loopBack object (run m).loc) =
            if (run m).loc = first then (run (n + 1)).store object
            else (run (m + 1)).store object := by
  obtain ⟨c, enter⟩ := endless.steps n
  obtain ⟨d, leave⟩ := endless.steps m
  have closes : head ≤ (run m).loc := by
    rcases Nat.lt_or_eq_of_le (Nat.succ_le_of_lt less) with after | same
    · exact Nat.le_of_lt (behind m after le_rfl)
    · rw [← same]
      exact Nat.le_of_eq starts.symm
  have isBack : (run m).loc ∈ frame.flow.backEdges head := by
    rw [proper.flow_eq]
    exact Flow.mem_backEdges.mpr ⟨returns ▸ leave.edge, closes⟩
  refine ⟨isBack, ?_⟩
  -- at the start of the trip, select the first back edge and the one over which it ends
  obtain ⟨_, follows⟩ := proper.exists_follows_run endless n
  obtain ⟨_, follows, chooses, -⟩ := proper.exists_choose follows c
  have split : frame.flow.backEdges (run (n + 1)).loc = [] ++ first :: others := by
    rw [starts]
    exact backs
  obtain ⟨entered, follows, -, selected⟩ := proper.exists_back follows chooses enter
    (by rw [starts]; exact closed) (fun a => decide (a = first ∨ a = (run m).loc))
    (fun a => if a = first then (run (n + 1)).store else (run (m + 1)).store) split nofun
    (by simp) (by simp)
  have reached := follows.reached
  rw [starts] at selected reached
  obtain ⟨selects, arrives⟩ := selected head le_rfl _ isBack
  -- follow the trip to its last step
  obtain ⟨_, follows, agree⟩ := proper.exists_follows_behind endless follows starts
    (Nat.succ_le_of_lt less) behind
  obtain ⟨model, follows, chooses, agree', -⟩ := proper.exists_choose follows d
  have agree := agree.trans (agree'.mono (by omega))
  have rank := proper.rank_loopSelect isBack
  have guard : model (Name.guard head).bool = entered (Name.guard head).bool :=
    agree (.guard head) .bool nofun (Nat.lt_succ_self _)
  have select : model (loopSelect (run m).loc) = entered (loopSelect (run m).loc) :=
    agree (.loopSelect _) .bool nofun (by omega)
  have taken := (proper.takes_step follows.toArrives chooses leave leave.edge).mpr rfl
  rw [returns] at taken
  refine ⟨model, follows.solves, ?_, ?_, taken, fun object isObject => ⟨?_, ?_⟩⟩
  · rw [Assignment.truth, guard]
    exact reached
  · rw [Assignment.truth, select, selects]
    simp
  · exact proper.store_step follows.toArrives chooses leave isObject
  · have rank := proper.rank_loopBack isBack object.name
    have back : model (loopBack object (run m).loc) = entered (loopBack object (run m).loc) :=
      agree _ object.sort (proper.back_isProper isObject _) (by omega)
    rw [back, arrives object isObject]
    split <;> rfl

end Frame.Proper

end TemplateAnalysis
