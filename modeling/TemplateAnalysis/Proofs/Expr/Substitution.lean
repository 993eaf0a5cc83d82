import TemplateAnalysis.Expr.Replace
import TemplateAnalysis.Proofs.Expr.Sorted

/-! # Substitution and evaluation

Replacing symbols by expressions and evaluating is evaluating with the symbols bound to the values
of those expressions. Every occurrence of a symbol becomes the occurrences of its replacement, in
place and in order. Substitutions compose, so a renaming that keeps the symbols of an expression
apart can be taken back.
-/

namespace TemplateAnalysis

/-- The valuation in which each symbol that a substitution replaces has the value of its
replacement. -/
def Valuation.rebound (v : Valuation) (f : Symbol → Option Expr) : Valuation := fun s =>
  match f s with
  | some e => e.eval v
  | none => v s

namespace Expr

variable {v w : Valuation} {f g : Symbol → Option Expr} {r : Symbol → Option Symbol}

/-- What a substitution puts in the place of a symbol. -/
def replacement (f : Symbol → Option Expr) (s : Symbol) : Expr := (f s).getD (.var s)

/-- The image of a symbol under a renaming. -/
def imageUnder (r : Symbol → Option Symbol) (s : Symbol) : Symbol := (r s).getD s

theorem replacement_some (g : Symbol → Expr) (s : Symbol) :
    replacement (fun s => some (g s)) s = g s := rfl

theorem replacement_rename (s : Symbol) :
    replacement (fun s => (r s).map .var) s = .var (imageUnder r s) := by
  cases image : r s <;> simp [replacement, imageUnder, image]

theorem eval_replacement (s : Symbol) : (replacement f s).eval v = v.rebound f s := by
  cases image : f s <;> simp [replacement, Valuation.rebound, image, eval]

section Recursion

theorem substitute_var (s : Symbol) : (var s).substitute f = replacement f s := by
  cases image : f s <;> simp [substitute, replace, replacement, image]

theorem substitute_arith (op : ArithOp) (a b : Expr) :
    (arith op a b).substitute f = arith op (a.substitute f) (b.substitute f) := rfl

theorem substitute_minus (a : Expr) : (minus a).substitute f = minus (a.substitute f) := rfl

theorem substitute_equation (a b : Expr) :
    (equation a b).substitute f = equation (a.substitute f) (b.substitute f) := rfl

theorem substitute_cmp (op : CmpOp) (a b : Expr) :
    (cmp op a b).substitute f = cmp op (a.substitute f) (b.substitute f) := rfl

theorem substitute_negation (a : Expr) :
    (negation a).substitute f = negation (a.substitute f) := rfl

theorem substitute_junction (c : Connective) (es : List Expr) :
    (junction c es).substitute f = junction c (es.map (·.substitute f)) := by
  simp only [substitute, replace, replaceAll_eq_map]

theorem substitute_implication (a b : Expr) :
    (implication a b).substitute f = implication (a.substitute f) (b.substitute f) := rfl

theorem substitute_conditional (c a b : Expr) : (conditional c a b).substitute f =
    conditional (c.substitute f) (a.substitute f) (b.substitute f) := rfl

end Recursion

theorem evalJunction_map {c : Connective} {es : List Expr} {h : Expr → Expr}
    (same : ∀ e ∈ es, (h e).eval v = e.eval w) :
    evalJunction v c (es.map h) = evalJunction w c es := by
  induction es with
  | nil => rfl
  | cons e es ih =>
    have head := same e List.mem_cons_self
    have tail := ih fun f member => same f (List.mem_cons_of_mem e member)
    simp only [List.map_cons, evalJunction, head, tail]

/-- Substituting and then evaluating is evaluating with the symbols bound anew. -/
theorem eval_substitute (e : Expr) : (e.substitute f).eval v = e.eval (v.rebound f) := by
  induction e using Expr.induction with
  | var s => rw [substitute_var, eval_replacement, eval]
  | bool p => rfl
  | int n => rfl
  | nondet sort => rfl
  | arith op a b ha hb => simp only [substitute_arith, eval, ha, hb]
  | minus a ha => simp only [substitute_minus, eval, ha]
  | equation a b ha hb => simp only [substitute_equation, eval, ha, hb]
  | cmp op a b ha hb => simp only [substitute_cmp, eval, ha, hb]
  | negation a ha => simp only [substitute_negation, eval, ha]
  | junction c es ih => rw [substitute_junction, eval, eval, evalJunction_map ih]
  | implication a b ha hb => simp only [substitute_implication, eval, ha, hb]
  | conditional c a b hc ha hb => simp only [substitute_conditional, eval, hc, ha, hb]

/-- Each occurrence is replaced by the occurrences in its replacement. -/
theorem occurrences_substitute (e : Expr) : (e.substitute f).occurrences =
    e.occurrences.flatMap fun s => (replacement f s).occurrences := by
  induction e using Expr.induction with
  | var s => simp [substitute_var, occurrences]
  | bool p => rfl
  | int n => rfl
  | nondet sort => rfl
  | arith op a b ha hb => simp only [substitute_arith, occurrences, List.flatMap_append, ha, hb]
  | minus a ha => simp only [substitute_minus, occurrences, ha]
  | equation a b ha hb =>
    simp only [substitute_equation, occurrences, List.flatMap_append, ha, hb]
  | cmp op a b ha hb => simp only [substitute_cmp, occurrences, List.flatMap_append, ha, hb]
  | negation a ha => simp only [substitute_negation, occurrences, ha]
  | junction c es ih =>
    simp only [substitute_junction, occurrences, occurrencesAll_eq_flatMap, List.flatMap_map,
      List.flatMap_assoc]
    rw [List.flatMap_def, List.flatMap_def, List.map_congr_left ih]
  | implication a b ha hb =>
    simp only [substitute_implication, occurrences, List.flatMap_append, ha, hb]
  | conditional c a b hc ha hb =>
    simp only [substitute_conditional, occurrences, List.flatMap_append, hc, ha, hb]

theorem mem_occurrences_substitute {e : Expr} {t : Symbol} :
    t ∈ (e.substitute f).occurrences ↔ ∃ s ∈ e.occurrences, t ∈ (replacement f s).occurrences := by
  rw [occurrences_substitute, List.mem_flatMap]

/-- One substitution after the other replaces the symbols in the replacements. -/
theorem substitute_substitute (e : Expr) : (e.substitute f).substitute g =
    e.substitute fun s => some ((replacement f s).substitute g) := by
  induction e using Expr.induction with
  | var s => rw [substitute_var, substitute_var, replacement_some]
  | bool p => rfl
  | int n => rfl
  | nondet sort => rfl
  | arith op a b ha hb => simp only [substitute_arith, ha, hb]
  | minus a ha => simp only [substitute_minus, ha]
  | equation a b ha hb => simp only [substitute_equation, ha, hb]
  | cmp op a b ha hb => simp only [substitute_cmp, ha, hb]
  | negation a ha => simp only [substitute_negation, ha]
  | junction c es ih =>
    simp only [substitute_junction, List.map_map]
    exact congrArg _ (List.map_congr_left ih)
  | implication a b ha hb => simp only [substitute_implication, ha, hb]
  | conditional c a b hc ha hb => simp only [substitute_conditional, hc, ha, hb]

/-- A substitution that leaves the symbols of an expression alone leaves the expression alone. -/
theorem substitute_eq_self {e : Expr} (fixed : ∀ s ∈ e.occurrences, replacement f s = .var s) :
    e.substitute f = e := by
  induction e using Expr.induction with
  | var s => exact (substitute_var s).trans (fixed s (by simp [occurrences]))
  | bool p => rfl
  | int n => rfl
  | nondet sort => rfl
  | arith op a b ha hb =>
    simp only [occurrences, List.forall_mem_append] at fixed
    rw [substitute_arith, ha fixed.1, hb fixed.2]
  | minus a ha => rw [substitute_minus, ha fixed]
  | equation a b ha hb =>
    simp only [occurrences, List.forall_mem_append] at fixed
    rw [substitute_equation, ha fixed.1, hb fixed.2]
  | cmp op a b ha hb =>
    simp only [occurrences, List.forall_mem_append] at fixed
    rw [substitute_cmp, ha fixed.1, hb fixed.2]
  | negation a ha => rw [substitute_negation, ha fixed]
  | junction c es ih =>
    simp only [occurrences, occurrencesAll_eq_flatMap, List.mem_flatMap] at fixed
    have same : es.map (·.substitute f) = es.map id := List.map_congr_left fun e member =>
      ih e member fun s occurs => fixed s ⟨e, member, occurs⟩
    rw [substitute_junction, same, List.map_id]
  | implication a b ha hb =>
    simp only [occurrences, List.forall_mem_append] at fixed
    rw [substitute_implication, ha fixed.1, hb fixed.2]
  | conditional c a b hc ha hb =>
    simp only [occurrences, List.forall_mem_append] at fixed
    rw [substitute_conditional, hc fixed.1.1, ha fixed.1.2, hb fixed.2]

section Renaming

/-- Renaming and then evaluating is evaluating each symbol as its image. -/
theorem eval_rename (e : Expr) : (e.rename r).eval v = e.eval fun s => v (imageUnder r s) := by
  have images : v.rebound (fun s => (r s).map .var) = fun s => v (imageUnder r s) := by
    funext s
    rw [← eval_replacement, replacement_rename, eval]
  rw [rename, eval_substitute, images]

theorem mem_occurrences_rename {e : Expr} {t : Symbol} :
    t ∈ (e.rename r).occurrences ↔ ∃ s ∈ e.occurrences, t = imageUnder r s := by
  simp only [rename, mem_occurrences_substitute, replacement_rename, occurrences,
    List.mem_singleton]

/-- A renaming is taken back by one that maps the images of the symbols to the symbols. -/
theorem rename_rename_eq_self {e : Expr} {back : Symbol → Option Symbol}
    (inverse : ∀ s ∈ e.occurrences, imageUnder back (imageUnder r s) = s) :
    (e.rename r).rename back = e := by
  simp only [rename, substitute_substitute]
  refine substitute_eq_self fun s occurs => ?_
  rw [replacement_some, replacement_rename, substitute_var, replacement_rename, inverse s occurs]

/-- The renaming that maps the image of each given symbol back to the first one that has it. -/
def inverseOn (r : Symbol → Option Symbol) (symbols : List Symbol) : Symbol → Option Symbol :=
  fun t => symbols.find? fun s => imageUnder r s = t

theorem imageUnder_inverseOn {symbols : List Symbol}
    (injective : ∀ s ∈ symbols, ∀ t ∈ symbols, imageUnder r s = imageUnder r t → s = t)
    {s : Symbol} (member : s ∈ symbols) :
    imageUnder (inverseOn r symbols) (imageUnder r s) = s := by
  have found : inverseOn r symbols (imageUnder r s) = some s := by
    cases first : inverseOn r symbols (imageUnder r s) with
    | none =>
      have absent := List.find?_eq_none.mp first s member
      simp at absent
    | some t =>
      have same := List.find?_some first
      have isSymbol := List.mem_of_find?_eq_some first
      rw [injective t isSymbol s member (of_decide_eq_true same)]
  rw [imageUnder, found, Option.getD_some]

end Renaming

/-- The laws of substitution and renaming: what the result evaluates to, which symbols it has, and
how a renaming that keeps the symbols of the expression apart is taken back. -/
theorem substitution_laws (e : Expr) (f : Symbol → Option Expr) (r : Symbol → Option Symbol)
    (v : Valuation) :
    (e.substitute f).eval v = e.eval (v.rebound f) ∧
    (e.rename r).eval v = e.eval (fun s => v (imageUnder r s)) ∧
    (∀ t, t ∈ (e.substitute f).symbols ↔ ∃ s ∈ e.symbols, t ∈ (replacement f s).symbols) ∧
    (∀ t, t ∈ (e.rename r).symbols ↔ ∃ s ∈ e.symbols, t = imageUnder r s) ∧
    (∀ back, (∀ s ∈ e.symbols, imageUnder back (imageUnder r s) = s) →
      (e.rename r).rename back = e) ∧
    ((∀ s ∈ e.symbols, ∀ t ∈ e.symbols, imageUnder r s = imageUnder r t → s = t) →
      (e.rename r).rename (inverseOn r e.symbols) = e) := by
  have back : ∀ {back}, (∀ s ∈ e.symbols, imageUnder back (imageUnder r s) = s) →
      (e.rename r).rename back = e := fun inverse =>
    rename_rename_eq_self fun s occurs => inverse s (mem_symbols.mpr occurs)
  refine ⟨eval_substitute e, eval_rename e, ?_, ?_, fun _ => back, fun injective => ?_⟩
  · intro t
    simp only [mem_symbols, mem_occurrences_substitute]
  · intro t
    simp only [mem_symbols, mem_occurrences_rename]
  · exact back fun s member => imageUnder_inverseOn injective member

/-- Two symbols exchanged and exchanged back, and a symbol replaced by an expression over another
one. -/
theorem substitution_laws_exchanged :
    let x : Symbol := ⟨"x", .int⟩
    let y : Symbol := ⟨"y", .int⟩
    let e := conditional (cmp .lt (var x) (var y)) (arith .add (var x) (int 1)) (var y)
    let exchange : Symbol → Option Symbol := fun s =>
      if s = x then some y else if s = y then some x else none
    let next : Symbol → Option Expr := fun s =>
      if s = x then some (arith .add (var y) (int 1)) else none
    let v : Valuation := Model.valuation [(y, .int 2)]
    (∀ s ∈ e.symbols, ∀ t ∈ e.symbols, imageUnder exchange s = imageUnder exchange t → s = t) ∧
      e.rename exchange =
        conditional (cmp .lt (var y) (var x)) (arith .add (var y) (int 1)) (var x) ∧
      (e.rename exchange).rename (inverseOn exchange e.symbols) = e ∧
      (e.substitute next).eval v = e.eval (v.rebound next) ∧
      e.eval (v.rebound next) = some (.int 2) := by
  intro x y e exchange next v
  obtain ⟨value, -, -, -, -, back⟩ := substitution_laws e next exchange v
  have injective : ∀ s ∈ e.symbols, ∀ t ∈ e.symbols,
      imageUnder exchange s = imageUnder exchange t → s = t := by decide
  exact ⟨injective, rfl, back injective, value, by decide⟩

end Expr

end TemplateAnalysis
