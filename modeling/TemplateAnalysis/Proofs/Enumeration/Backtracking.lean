import TemplateAnalysis.Proofs.Enumeration.Dependencies

/-! # Taking guesses back

The search changes one model: it adds guesses and what is computed from them, and takes them back
where they lead to nothing. A search that fails leaves the model as it got it, since only symbols
without values are guessed and computed. So nothing of a failed guess is there when the next one is
made, and the search finds what it would find if it made every guess in a model of its own.
-/

namespace TemplateAnalysis.Enumeration.Problem

variable {problem : Problem} {model left : Model} {s : Symbol}

/-- A search that gives back the model if it fails. -/
def TakesBack (search : Model → Bool × Model) : Prop :=
  ∀ model left, search model = (false, left) → left = model

/-- If the searches for all guesses fail, the guesses are taken back as well. -/
theorem tryGuesses_takesBack {search : Model → Bool × Model} (takesBack : TakesBack search)
    (unknown : model.valuation s = none) {guesses : List Value}
    (failed : tryGuesses search s guesses model = (false, left)) : left = model := by
  induction guesses with
  | nil =>
    cases failed
    rfl
  | cons guess rest ih =>
    rw [tryGuesses] at failed
    split at failed
    · cases failed
    · next searched =>
      rw [takesBack _ _ searched, Model.remove_cons_self unknown] at failed
      exact ih failed

section Guessing

variable {guess : Symbol → Model → Bool × Model}
  (takesBack : ∀ s model left, model.valuation s = none → guess s model = (false, left) →
    left = model)
include takesBack

/-- An attempt guesses a symbol without a value, or leaves the model alone. -/
theorem attempt_takesBack : TakesBack (problem.attempt guess) := by
  intro model left failed
  unfold attempt at failed
  split at failed
  · cases failed
    rfl
  · cases failed
  · split at failed
    · cases failed
      rfl
    · next branch => exact takesBack _ model left (unknown_of_branchSymbol branch) failed

/-- A round that fails takes back what it has computed, if its guesses are taken back. -/
theorem round_takesBack : TakesBack (problem.round guess) := by
  intro model left failed
  unfold round at failed
  dsimp only at failed
  split at failed
  · cases failed
  · next attempted =>
    rw [attempt_takesBack takesBack _ _ attempted, remove_derived] at failed
    cases failed
    rfl

end Guessing

/-- A search that fails gives back the model it got. -/
theorem search_takesBack (problem : Problem) (n : Nat) : TakesBack (problem.search n) := by
  induction n with
  | zero =>
    refine round_takesBack fun _ _ _ _ failed => ?_
    cases failed
    rfl
  | succ n ih => exact round_takesBack fun _ _ _ unknown => tryGuesses_takesBack ih unknown

/-- What becomes of a model in which nothing is left to be computed: it is completed if it makes the
constraints true, and if one of them is undecided, it is what guessing a symbol makes of it. -/
def extension (problem : Problem) (guess : Symbol → Model → Option Model) (model : Model) :
    Option Model :=
  match inspect model.valuation problem.constraints with
  | .conflict => none
  | .settled => some (problem.complete model)
  | .undecided constraint =>
    (problem.branchSymbol model.valuation constraint).bind fun s => guess s model

/-- The first model found with at most `n` guesses inside one another, if every guess is made in a
model of its own. -/
def firstModel (problem : Problem) : Nat → Model → Option Model
  | 0, model => problem.extension (fun _ _ => none) (problem.propagate model).model
  | n + 1, model => problem.extension (fun s model => (guesses s.sort).findSome? fun guess =>
      problem.firstModel n ((s, guess) :: model)) (problem.propagate model).model

theorem outcome_tryGuesses {search : Model → Bool × Model} (takesBack : TakesBack search)
    (unknown : model.valuation s = none) (guesses : List Value) :
    outcome (tryGuesses search s guesses model) =
      guesses.findSome? fun guess => outcome (search ((s, guess) :: model)) := by
  induction guesses with
  | nil => rfl
  | cons guess rest ih =>
    rw [tryGuesses, List.findSome?_cons]
    split
    · next searched =>
      rw [searched]
      rfl
    · next searched =>
      rw [takesBack _ _ searched, Model.remove_cons_self unknown, searched]
      exact ih

theorem outcome_attempt {guess : Symbol → Model → Bool × Model}
    {extend : Symbol → Model → Option Model} {model : Model}
    (agrees : ∀ s, model.valuation s = none → outcome (guess s model) = extend s model) :
    outcome (problem.attempt guess model) = problem.extension extend model := by
  rw [attempt, extension]
  cases inspect model.valuation problem.constraints with
  | conflict => rfl
  | settled => rfl
  | undecided constraint =>
    dsimp only
    cases branch : problem.branchSymbol model.valuation constraint with
    | none => rfl
    | some s => exact agrees s (unknown_of_branchSymbol branch)

theorem outcome_round (guess : Symbol → Model → Bool × Model) (model : Model) :
    outcome (problem.round guess model) =
      outcome (problem.attempt guess (problem.propagate model).model) := by
  rw [round]
  split
  · next attempted => rw [attempted]
  · next attempted =>
    rw [attempted]
    rfl

/-- The search finds what it would find if it made every guess in a model of its own. -/
theorem outcome_search (problem : Problem) (n : Nat) (model : Model) :
    outcome (problem.search n model) = problem.firstModel n model := by
  induction n generalizing model with
  | zero =>
    rw [search, outcome_round, firstModel]
    exact outcome_attempt fun _ _ => rfl
  | succ n ih =>
    rw [search, outcome_round, firstModel]
    refine outcome_attempt fun s unknown => ?_
    rw [outcome_tryGuesses (search_takesBack problem n) unknown]
    simp only [ih]

end TemplateAnalysis.Enumeration.Problem
