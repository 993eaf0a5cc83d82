import TemplateAnalysis.Proofs.Expr.Substitution

/-! # Reading an expression through other symbols

Renaming the symbols of an expression and filling in its open values keeps its sort and leaves
nothing open. Two readings of one expression have the same value if they agree on each symbol and on
each open value.
-/

namespace TemplateAnalysis

/-- The constant of a value. -/
def Value.constant : Value → Expr
  | .bool b => .bool b
  | .int n => .int n

@[simp] theorem Value.eval_constant (v : Valuation) (x : Value) :
    x.constant.eval v = some x := by
  cases x <;> rfl

namespace Expr

variable {r : Symbol → Option Symbol} {f g : Nat → ValueSort → Expr}

theorem rename_var (s : Symbol) : (var s).rename r = var (imageUnder r s) :=
  (substitute_var s).trans (replacement_rename s)

theorem rename_junction (c : Connective) (es : List Expr) :
    (junction c es).rename r = junction c (es.map (·.rename r)) := substitute_junction c es

theorem rename_arith (op : ArithOp) (a b : Expr) :
    (arith op a b).rename r = arith op (a.rename r) (b.rename r) := rfl

theorem rename_minus (a : Expr) : (minus a).rename r = minus (a.rename r) := rfl

theorem rename_equation (a b : Expr) :
    (equation a b).rename r = equation (a.rename r) (b.rename r) := rfl

theorem rename_cmp (op : CmpOp) (a b : Expr) :
    (cmp op a b).rename r = cmp op (a.rename r) (b.rename r) := rfl

theorem rename_negation (a : Expr) : (negation a).rename r = negation (a.rename r) := rfl

theorem rename_implication (a b : Expr) :
    (implication a b).rename r = implication (a.rename r) (b.rename r) := rfl

theorem rename_conditional (c a b : Expr) :
    (conditional c a b).rename r = conditional (c.rename r) (a.rename r) (b.rename r) := rfl

/-- How far the counter of open values goes depends on the expression only. -/
theorem fillNondets_rename_next (e : Expr) (k : Nat) :
    ((e.rename r).fillNondets f k).2 = (e.fillNondets g k).2 := by
  induction e using Expr.induction generalizing k with
  | var s => simp only [rename_var, fillNondets]
  | bool b => rfl
  | int n => rfl
  | nondet sort => rfl
  | arith op a b ha hb => simp only [rename_arith, fillNondets, ha, hb]
  | minus a ha => simp only [rename_minus, fillNondets, ha]
  | equation a b ha hb => simp only [rename_equation, fillNondets, ha, hb]
  | cmp op a b ha hb => simp only [rename_cmp, fillNondets, ha, hb]
  | negation a ha => simp only [rename_negation, fillNondets, ha]
  | junction c es ih =>
    simp only [rename_junction, fillNondets]
    induction es generalizing k with
    | nil => rfl
    | cons e es tail =>
      have head := ih e List.mem_cons_self
      simp only [List.map_cons, fillNondetsAll, head]
      exact tail (fun f member => ih f (List.mem_cons_of_mem e member)) _
  | implication a b ha hb => simp only [rename_implication, fillNondets, ha, hb]
  | conditional c a b hc ha hb => simp only [rename_conditional, fillNondets, hc, ha, hb]

/-- Two readings that agree on symbols and open values have the same value. -/
theorem eval_fillNondets_rename {v w : Valuation} {e : Expr}
    (symbols : ∀ s ∈ e.occurrences, v (imageUnder r s) = w s)
    (opened : ∀ k sort, (f k sort).eval v = (g k sort).eval w) (k : Nat) :
    ((e.rename r).fillNondets f k).1.eval v = (e.fillNondets g k).1.eval w := by
  have next := fillNondets_rename_next (r := r) (f := f) (g := g)
  induction e using Expr.induction generalizing k with
  | var s =>
    simp only [rename_var, fillNondets, eval]
    exact symbols s (by simp [occurrences])
  | bool b => rfl
  | int n => rfl
  | nondet sort => exact opened k sort
  | arith op a b ha hb =>
    simp only [occurrences, List.mem_append] at symbols
    simp only [rename_arith, fillNondets, eval, next, ha fun s h => symbols s (.inl h),
      hb fun s h => symbols s (.inr h)]
  | minus a ha => simp only [rename_minus, fillNondets, eval, ha symbols]
  | equation a b ha hb =>
    simp only [occurrences, List.mem_append] at symbols
    simp only [rename_equation, fillNondets, eval, next, ha fun s h => symbols s (.inl h),
      hb fun s h => symbols s (.inr h)]
  | cmp op a b ha hb =>
    simp only [occurrences, List.mem_append] at symbols
    simp only [rename_cmp, fillNondets, eval, next, ha fun s h => symbols s (.inl h),
      hb fun s h => symbols s (.inr h)]
  | negation a ha => simp only [rename_negation, fillNondets, eval, ha symbols]
  | junction c es ih =>
    simp only [occurrences, occurrencesAll_eq_flatMap, List.mem_flatMap] at symbols
    simp only [rename_junction, fillNondets, eval]
    induction es generalizing k with
    | nil => rfl
    | cons e es tail =>
      have head := ih e List.mem_cons_self fun s h => symbols s ⟨e, List.mem_cons_self, h⟩
      have rest := fun k => tail (fun e member => ih e (List.mem_cons_of_mem _ member)) k
        fun s occurs => symbols s (occurs.imp fun _ => And.imp_left (List.mem_cons_of_mem _))
      simp only [List.map_cons, fillNondetsAll, evalJunction, head, next, rest]
  | implication a b ha hb =>
    simp only [occurrences, List.mem_append] at symbols
    simp only [rename_implication, fillNondets, eval, next, ha fun s h => symbols s (.inl h),
      hb fun s h => symbols s (.inr h)]
  | conditional c a b hc ha hb =>
    simp only [occurrences, List.mem_append] at symbols
    simp only [rename_conditional, fillNondets, eval, next,
      hc fun s h => symbols s (.inl (.inl h)), ha fun s h => symbols s (.inl (.inr h)),
      hb fun s h => symbols s (.inr h)]

/-- Reading keeps the sort if renaming and filling in do. -/
theorem sort_fillNondets_rename {e : Expr}
    (symbols : ∀ s ∈ e.occurrences, (imageUnder r s).sort = s.sort)
    (opened : ∀ k sort, (f k sort).sort = sort) (k : Nat) :
    ((e.rename r).fillNondets f k).1.sort = e.sort := by
  induction e using Expr.induction generalizing k with
  | var s =>
    simp only [rename_var, fillNondets, sort]
    exact symbols s (by simp [occurrences])
  | nondet sort => exact opened k sort
  | conditional c a b _ ha _ =>
    simp only [occurrences, List.mem_append] at symbols
    simp only [rename_conditional, fillNondets, sort, ha fun s h => symbols s (.inl (.inr h))]
  | _ => rfl

/-- Reading keeps an expression well sorted. -/
theorem isWellSorted_fillNondets_rename {e : Expr} (sorted : e.isWellSorted = true)
    (symbols : ∀ s ∈ e.occurrences, (imageUnder r s).sort = s.sort)
    (opened : ∀ k sort, (f k sort).isWellSorted = true ∧ (f k sort).sort = sort) (k : Nat) :
    ((e.rename r).fillNondets f k).1.isWellSorted = true := by
  have sorts : ∀ {e : Expr}, (∀ s ∈ e.occurrences, (imageUnder r s).sort = s.sort) → ∀ k,
      ((e.rename r).fillNondets f k).1.sort = e.sort :=
    fun symbols => sort_fillNondets_rename symbols fun k sort => (opened k sort).2
  induction e using Expr.induction generalizing k with
  | var s => simp only [rename_var, fillNondets, isWellSorted]
  | bool b => rfl
  | int n => rfl
  | nondet sort => exact (opened k sort).1
  | arith op a b ha hb =>
    simp only [isWellSorted, Bool.and_eq_true, beq_iff_eq] at sorted
    simp only [occurrences, List.mem_append] at symbols
    have first : ∀ s ∈ a.occurrences, _ := fun s h => symbols s (.inl h)
    have second : ∀ s ∈ b.occurrences, _ := fun s h => symbols s (.inr h)
    simp [rename_arith, fillNondets, isWellSorted, ha sorted.1.1.1 first, hb sorted.1.1.2 second,
      sorts first, sorts second, sorted]
  | minus a ha =>
    simp only [isWellSorted, Bool.and_eq_true, beq_iff_eq] at sorted
    simp [rename_minus, fillNondets, isWellSorted, ha sorted.1 symbols, sorts (e := a) symbols,
      sorted]
  | equation a b ha hb =>
    simp only [isWellSorted, Bool.and_eq_true, beq_iff_eq] at sorted
    simp only [occurrences, List.mem_append] at symbols
    have first : ∀ s ∈ a.occurrences, _ := fun s h => symbols s (.inl h)
    have second : ∀ s ∈ b.occurrences, _ := fun s h => symbols s (.inr h)
    simp [rename_equation, fillNondets, isWellSorted, ha sorted.1.1 first, hb sorted.1.2 second,
      sorts first, sorts second, sorted]
  | cmp op a b ha hb =>
    simp only [isWellSorted, Bool.and_eq_true, beq_iff_eq] at sorted
    simp only [occurrences, List.mem_append] at symbols
    have first : ∀ s ∈ a.occurrences, _ := fun s h => symbols s (.inl h)
    have second : ∀ s ∈ b.occurrences, _ := fun s h => symbols s (.inr h)
    simp [rename_cmp, fillNondets, isWellSorted, ha sorted.1.1.1 first, hb sorted.1.1.2 second,
      sorts first, sorts second, sorted]
  | negation a ha =>
    simp only [isWellSorted, Bool.and_eq_true, beq_iff_eq] at sorted
    simp [rename_negation, fillNondets, isWellSorted, ha sorted.1 symbols, sorts (e := a) symbols,
      sorted]
  | junction c es ih =>
    simp only [occurrences, occurrencesAll_eq_flatMap, List.mem_flatMap] at symbols
    simp only [rename_junction, fillNondets, isWellSorted] at sorted ⊢
    induction es generalizing k with
    | nil => rfl
    | cons e es tail =>
      simp only [areConditions, Bool.and_eq_true, beq_iff_eq] at sorted
      have first : ∀ s ∈ e.occurrences, _ := fun s h => symbols s ⟨e, List.mem_cons_self, h⟩
      have head := ih e List.mem_cons_self sorted.1.1 first
      have rest := fun k => tail (fun e member => ih e (List.mem_cons_of_mem _ member)) sorted.2 k
        fun s occurs => symbols s (occurs.imp fun _ => And.imp_left (List.mem_cons_of_mem _))
      simp [fillNondetsAll, areConditions, head, rest, sorts first, sorted.1.2]
  | implication a b ha hb =>
    simp only [isWellSorted, Bool.and_eq_true, beq_iff_eq] at sorted
    simp only [occurrences, List.mem_append] at symbols
    have first : ∀ s ∈ a.occurrences, _ := fun s h => symbols s (.inl h)
    have second : ∀ s ∈ b.occurrences, _ := fun s h => symbols s (.inr h)
    simp [rename_implication, fillNondets, isWellSorted, ha sorted.1.1.1 first,
      hb sorted.1.1.2 second, sorts first, sorts second, sorted]
  | conditional c a b hc ha hb =>
    simp only [isWellSorted, Bool.and_eq_true, beq_iff_eq] at sorted
    simp only [occurrences, List.mem_append] at symbols
    have first : ∀ s ∈ c.occurrences, _ := fun s h => symbols s (.inl (.inl h))
    have second : ∀ s ∈ a.occurrences, _ := fun s h => symbols s (.inl (.inr h))
    have third : ∀ s ∈ b.occurrences, _ := fun s h => symbols s (.inr h)
    simp [rename_conditional, fillNondets, isWellSorted, hc sorted.1.1.1.1 first,
      ha sorted.1.1.1.2 second, hb sorted.1.1.2 third, sorts first, sorts second, sorts third,
      sorted]

/-- Filling in leaves nothing open. -/
theorem hasNondet_fillNondets (closed : ∀ k sort, (f k sort).hasNondet = false) (e : Expr)
    (k : Nat) : (e.fillNondets f k).1.hasNondet = false := by
  induction e using Expr.induction generalizing k with
  | var s => rfl
  | bool b => rfl
  | int n => rfl
  | nondet sort => exact closed k sort
  | arith op a b ha hb => simp [fillNondets, hasNondet, ha, hb]
  | minus a ha => simp [fillNondets, hasNondet, ha]
  | equation a b ha hb => simp [fillNondets, hasNondet, ha, hb]
  | cmp op a b ha hb => simp [fillNondets, hasNondet, ha, hb]
  | negation a ha => simp [fillNondets, hasNondet, ha]
  | junction c es ih =>
    simp only [fillNondets, hasNondet]
    induction es generalizing k with
    | nil => rfl
    | cons e es tail =>
      have rest := tail fun e member => ih e (List.mem_cons_of_mem _ member)
      simp [fillNondetsAll, anyNondet, ih e List.mem_cons_self, rest]
  | implication a b ha hb => simp [fillNondets, hasNondet, ha, hb]
  | conditional c a b hc ha hb => simp [fillNondets, hasNondet, hc, ha, hb]

/-- What occurs after filling in stood there before or stands for an open value. -/
theorem mem_occurrences_fillNondets {e : Expr} {k : Nat} {s : Symbol}
    (occurs : s ∈ (e.fillNondets f k).1.occurrences) :
    s ∈ e.occurrences ∨ ∃ k sort, s ∈ (f k sort).occurrences := by
  induction e using Expr.induction generalizing k with
  | var t => exact .inl occurs
  | bool b => exact absurd occurs List.not_mem_nil
  | int n => exact absurd occurs List.not_mem_nil
  | nondet sort => exact .inr ⟨k, sort, occurs⟩
  | arith op a b ha hb =>
    simp only [fillNondets, occurrences, List.mem_append] at occurs ⊢
    rcases occurs with first | second
    · exact (ha first).imp_left .inl
    · exact (hb second).imp_left .inr
  | minus a ha => exact ha occurs
  | equation a b ha hb =>
    simp only [fillNondets, occurrences, List.mem_append] at occurs ⊢
    rcases occurs with first | second
    · exact (ha first).imp_left .inl
    · exact (hb second).imp_left .inr
  | cmp op a b ha hb =>
    simp only [fillNondets, occurrences, List.mem_append] at occurs ⊢
    rcases occurs with first | second
    · exact (ha first).imp_left .inl
    · exact (hb second).imp_left .inr
  | negation a ha => exact ha occurs
  | junction c es ih =>
    simp only [fillNondets, occurrences] at occurs ⊢
    induction es generalizing k with
    | nil => exact absurd occurs List.not_mem_nil
    | cons e es tail =>
      simp only [fillNondetsAll, occurrencesAll, List.mem_append] at occurs ⊢
      rcases occurs with first | second
      · exact (ih e List.mem_cons_self first).imp_left .inl
      · exact (tail (fun e member => ih e (List.mem_cons_of_mem _ member)) second).imp_left .inr
  | implication a b ha hb =>
    simp only [fillNondets, occurrences, List.mem_append] at occurs ⊢
    rcases occurs with first | second
    · exact (ha first).imp_left .inl
    · exact (hb second).imp_left .inr
  | conditional c a b hc ha hb =>
    simp only [fillNondets, occurrences, List.mem_append] at occurs ⊢
    rcases occurs with (first | second) | third
    · exact (hc first).imp_left (.inl ∘ .inl)
    · exact (ha second).imp_left (.inl ∘ .inr)
    · exact (hb third).imp_left .inr

/-- What occurs in a reading is the image of a symbol or stands for an open value. -/
theorem mem_occurrences_fillNondets_rename {e : Expr} {k : Nat} {s : Symbol}
    (occurs : s ∈ ((e.rename r).fillNondets f k).1.occurrences) :
    (∃ t ∈ e.occurrences, s = imageUnder r t) ∨ ∃ k sort, s ∈ (f k sort).occurrences :=
  (mem_occurrences_fillNondets occurs).imp_left mem_occurrences_rename.mp

/-- Without open values there is nothing to fill in. -/
theorem fillNondets_of_closed {e : Expr} (closed : e.hasNondet = false) (k : Nat) :
    e.fillNondets f k = (e, k) := by
  induction e using Expr.induction with
  | var s => rfl
  | bool b => rfl
  | int n => rfl
  | nondet sort => cases closed
  | arith op a b ha hb => simp_all [fillNondets, hasNondet]
  | minus a ha => simp_all [fillNondets, hasNondet]
  | equation a b ha hb => simp_all [fillNondets, hasNondet]
  | cmp op a b ha hb => simp_all [fillNondets, hasNondet]
  | negation a ha => simp_all [fillNondets, hasNondet]
  | junction c es ih =>
    have all : fillNondetsAll f es k = (es, k) := by
      rw [hasNondet, anyNondet_eq_any, List.any_eq_false] at closed
      induction es with
      | nil => rfl
      | cons e es tail =>
        have head := ih e List.mem_cons_self (by simpa using closed e List.mem_cons_self)
        have rest := tail (fun e member => ih e (List.mem_cons_of_mem _ member))
          fun e member => closed e (List.mem_cons_of_mem _ member)
        simp only [fillNondetsAll, head, rest]
    simp only [fillNondets, all]
  | implication a b ha hb => simp_all [fillNondets, hasNondet]
  | conditional c a b hc ha hb => simp_all [fillNondets, hasNondet]

theorem hasNondet_rename (e : Expr) : (e.rename r).hasNondet = e.hasNondet := by
  induction e using Expr.induction with
  | var s => simp only [rename_var, hasNondet]
  | bool b => rfl
  | int n => rfl
  | nondet sort => rfl
  | arith op a b ha hb => simp only [rename_arith, hasNondet, ha, hb]
  | minus a ha => simp only [rename_minus, hasNondet, ha]
  | equation a b ha hb => simp only [rename_equation, hasNondet, ha, hb]
  | cmp op a b ha hb => simp only [rename_cmp, hasNondet, ha, hb]
  | negation a ha => simp only [rename_negation, hasNondet, ha]
  | junction c es ih =>
    simp only [rename_junction, hasNondet, anyNondet_eq_any, List.any_map]
    rw [Bool.eq_iff_iff]
    simp only [List.any_eq_true, Function.comp_apply]
    exact exists_congr fun e => and_congr_right fun member => by rw [ih e member]
  | implication a b ha hb => simp only [rename_implication, hasNondet, ha, hb]
  | conditional c a b hc ha hb => simp only [rename_conditional, hasNondet, hc, ha, hb]

end Expr

end TemplateAnalysis
