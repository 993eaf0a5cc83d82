import TemplateAnalysis.Proofs.Expr.Reading
import TemplateAnalysis.Proofs.Expr.Simplified

/-! # Terms over a set of symbols

A term of a sort is a well-sorted expression of that sort that leaves nothing open. The constructors
that simplify build terms from terms and bring in no symbols, and reading an expression through
other symbols gives a term over those.
-/

namespace TemplateAnalysis.Expr

/-- A well-sorted expression of a sort, without open values, over given symbols. -/
structure TermOver (P : Symbol → Prop) (sort : ValueSort) (e : Expr) : Prop where
  sorted : e.isWellSorted = true
  closed : e.hasNondet = false
  sort_eq : e.sort = sort
  within : ∀ s ∈ e.occurrences, P s

namespace TermOver

variable {P : Symbol → Prop} {sort : ValueSort} {a b c : Expr}

theorem var {s : Symbol} (known : P s) : TermOver P s.sort (.var s) where
  sorted := rfl
  closed := rfl
  sort_eq := rfl
  within t occurs := by
    rw [List.mem_singleton.mp occurs]
    exact known

theorem bool (b : Bool) : TermOver P .bool (.bool b) :=
  ⟨rfl, rfl, rfl, fun _ occurs => absurd occurs List.not_mem_nil⟩

theorem isCondition (term : TermOver P .bool a) : a.isCondition = true :=
  isCondition_iff.mpr ⟨term.sorted, term.sort_eq⟩

theorem mono {Q : Symbol → Prop} (term : TermOver P sort a) (weaker : ∀ s, P s → Q s) :
    TermOver Q sort a :=
  ⟨term.sorted, term.closed, term.sort_eq, fun s h => weaker s (term.within s h)⟩

/-- A term has a value of its sort. -/
theorem eval (term : TermOver P sort a) (m : Assignment) :
    ∃ x, a.eval m.valuation = some x ∧ x.sort = sort := by
  obtain ⟨x, value, same⟩ := eval_assignment m term.sorted term.closed
  exact ⟨x, value, same.trans term.sort_eq⟩

/-- Assignments that agree on the symbols give a term the same value. -/
theorem eval_eq (term : TermOver P sort a) {m n : Assignment} (agree : ∀ s, P s → m s = n s) :
    a.eval m.valuation = a.eval n.valuation :=
  eval_congr fun s occurs => congrArg some (agree s (term.within s occurs))

/-- What refines a term is one. -/
theorem refine (term : TermOver P sort a) (refines : b.Refines a) : TermOver P sort b where
  sorted := (refines.sorted term.sorted).1
  closed := refines.closed term.closed
  sort_eq := (refines.sorted term.sorted).2.trans term.sort_eq
  within s occurs := term.within s (refines.within occurs)

theorem not (term : TermOver P .bool a) : TermOver P .bool a.not := by
  have plain : TermOver P .bool (.negation a) := by
    refine ⟨?_, term.closed, rfl, term.within⟩
    simp [isWellSorted, term.sorted, term.sort_eq]
  exact plain.refine (not_refines a)

/-- An expression of two terms is a term if it is well sorted. -/
private theorem combine {e : Expr} {kind : ValueSort} (first : TermOver P sort a)
    (second : TermOver P sort b) (sorted : e.isWellSorted = true) (sort_eq : e.sort = kind)
    (opened : e.hasNondet = (a.hasNondet || b.hasNondet))
    (symbols : e.occurrences = a.occurrences ++ b.occurrences) : TermOver P kind e where
  sorted
  closed := by rw [opened, first.closed, second.closed, Bool.or_false]
  sort_eq
  within s occurs := by
    rw [symbols] at occurs
    exact (List.mem_append.mp occurs).elim (first.within s) (second.within s)

theorem conditional (test : TermOver P .bool c) (first : TermOver P sort a)
    (second : TermOver P sort b) : TermOver P sort (.conditional c a b) := by
  refine ⟨?_, ?_, first.sort_eq, ?_⟩
  · simp [isWellSorted, test.sorted, test.sort_eq, first.sorted, first.sort_eq, second.sorted,
      second.sort_eq]
  · simp [hasNondet, test.closed, first.closed, second.closed]
  · intro s occurs
    simp only [occurrences, List.mem_append] at occurs
    rcases occurs with (occurs | occurs) | occurs
    · exact test.within s occurs
    · exact first.within s occurs
    · exact second.within s occurs

theorem ite (test : TermOver P .bool c) (first : TermOver P sort a) (second : TermOver P sort b) :
    TermOver P sort (Expr.ite c a b) :=
  (test.conditional first second).refine (ite_refines c a b)

theorem junction {connective : Connective} {es : List Expr} (terms : ∀ e ∈ es, TermOver P .bool e) :
    TermOver P .bool (.junction connective es) := by
  refine ⟨?_, ?_, rfl, ?_⟩
  · exact areConditions_iff.mpr fun e member => (terms e member).isCondition
  · simp only [hasNondet, anyNondet_eq_any, List.any_eq_false, Bool.not_eq_true]
    exact fun e member => (terms e member).closed
  · intro s occurs
    simp only [occurrences, occurrencesAll_eq_flatMap, List.mem_flatMap] at occurs
    obtain ⟨e, member, occurs⟩ := occurs
    exact (terms e member).within s occurs

theorem join {connective : Connective} {es : List Expr} (terms : ∀ e ∈ es, TermOver P .bool e) :
    TermOver P .bool (Expr.join connective es) :=
  (junction terms).refine (join_refines connective es)

theorem disj {es : List Expr} (terms : ∀ e ∈ es, TermOver P .bool e) :
    TermOver P .bool (Expr.disj es) := join terms

theorem and (first : TermOver P .bool a) (second : TermOver P .bool b) :
    TermOver P .bool (a.and b) := by
  refine join fun e member => ?_
  rcases (by simpa using member : e = a ∨ e = b) with rfl | rfl
  · exact first
  · exact second

theorem conj {es : List Expr} (terms : ∀ e ∈ es, TermOver P .bool e) :
    TermOver P .bool (Expr.conj es) := join terms

theorem implies (first : TermOver P .bool a) (second : TermOver P .bool b) :
    TermOver P .bool (a.implies b) := by
  have plain : TermOver P .bool (.implication a b) := by
    refine first.combine second ?_ rfl rfl rfl
    simp [isWellSorted, first.sorted, first.sort_eq, second.sorted, second.sort_eq]
  exact plain.refine (implies_refines a b)

theorem equal (first : TermOver P sort a) (second : TermOver P sort b) :
    TermOver P .bool (a.equal b) := by
  have plain : TermOver P .bool (.equation a b) := by
    refine first.combine second ?_ rfl rfl rfl
    simp [isWellSorted, first.sorted, first.sort_eq, second.sorted, second.sort_eq]
  exact plain.refine (equal_refines a b)

section Numbers

theorem int (n : Int64) : TermOver P .int (.int n) :=
  ⟨rfl, rfl, rfl, fun _ occurs => absurd occurs List.not_mem_nil⟩

variable (first : TermOver P .int a) (second : TermOver P .int b)
include first second

theorem arith (op : ArithOp) : TermOver P .int (.arith op a b) := by
  refine first.combine second ?_ rfl rfl rfl
  simp [isWellSorted, first.sorted, first.sort_eq, second.sorted, second.sort_eq]

theorem cmp (op : CmpOp) : TermOver P .bool (.cmp op a b) := by
  refine first.combine second ?_ rfl rfl rfl
  simp [isWellSorted, first.sorted, first.sort_eq, second.sorted, second.sort_eq]

theorem add : TermOver P .int (a.add b) := (first.arith second .add).refine (add_refines a b)

theorem mul : TermOver P .int (a.mul b) := (first.arith second .mul).refine (mul_refines a b)

theorem gt : TermOver P .bool (a.gt b) := (first.cmp second .gt).refine (gt_refines a b)

theorem ge : TermOver P .bool (a.ge b) := (first.cmp second .ge).refine (ge_refines a b)

end Numbers

/-- An expression read through other symbols. -/
theorem fillNondets_rename {r : Symbol → Option Symbol} {f : Nat → ValueSort → Expr} {e : Expr}
    (sorted : e.isWellSorted = true)
    (symbols : ∀ s ∈ e.occurrences, (imageUnder r s).sort = s.sort ∧ P (imageUnder r s))
    (opened : ∀ k sort, TermOver P sort (f k sort)) (k : Nat) :
    TermOver P e.sort ((e.rename r).fillNondets f k).1 where
  sorted := isWellSorted_fillNondets_rename sorted (fun s h => (symbols s h).1)
    (fun k sort => ⟨(opened k sort).sorted, (opened k sort).sort_eq⟩) k
  closed := hasNondet_fillNondets (fun k sort => (opened k sort).closed) _ k
  sort_eq := sort_fillNondets_rename (fun s h => (symbols s h).1)
    (fun k sort => (opened k sort).sort_eq) k
  within s occurs := by
    rcases mem_occurrences_fillNondets_rename occurs with ⟨t, member, rfl⟩ | ⟨k, sort, member⟩
    · exact (symbols t member).2
    · exact (opened k sort).within s member

/-- An expression without open values under other symbols. -/
theorem rename {r : Symbol → Option Symbol} {e : Expr} (sorted : e.isWellSorted = true)
    (closed : e.hasNondet = false)
    (symbols : ∀ s ∈ e.occurrences, (imageUnder r s).sort = s.sort ∧ P (imageUnder r s)) :
    TermOver P e.sort (e.rename r) := by
  have opened : ∀ (k : Nat) (sort : ValueSort), TermOver P sort sort.default.constant := by
    intro k sort
    cases sort with
    | bool => exact bool false
    | int => exact int 0
  have term := fillNondets_rename sorted symbols opened 0
  rwa [fillNondets_of_closed ((hasNondet_rename e).trans closed)] at term

section Parts

/-- The two operands of a term are terms, of the sorts that well-sortedness gives them. -/
private theorem split {e : Expr} {left right : ValueSort} (term : TermOver P sort e)
    (sorted : a.isWellSorted = true ∧ b.isWellSorted = true ∧ a.sort = left ∧ b.sort = right)
    (opened : e.hasNondet = (a.hasNondet || b.hasNondet))
    (symbols : e.occurrences = a.occurrences ++ b.occurrences) :
    TermOver P left a ∧ TermOver P right b := by
  obtain ⟨sortedA, sortedB, sortA, sortB⟩ := sorted
  have closed := term.closed
  rw [opened, Bool.or_eq_false_iff] at closed
  have within := term.within
  rw [symbols] at within
  exact ⟨⟨sortedA, closed.1, sortA, fun s h => within s (List.mem_append_left _ h)⟩,
    ⟨sortedB, closed.2, sortB, fun s h => within s (List.mem_append_right _ h)⟩⟩

theorem of_arith {op : ArithOp} (term : TermOver P sort (.arith op a b)) :
    TermOver P .int a ∧ TermOver P .int b := by
  refine term.split ?_ rfl rfl
  simpa [isWellSorted, and_assoc] using term.sorted

theorem of_cmp {op : CmpOp} (term : TermOver P sort (.cmp op a b)) :
    TermOver P .int a ∧ TermOver P .int b := by
  refine term.split ?_ rfl rfl
  simpa [isWellSorted, and_assoc] using term.sorted

theorem of_equation (term : TermOver P sort (.equation a b)) :
    TermOver P a.sort a ∧ TermOver P a.sort b := by
  have sorted := term.sorted
  simp only [isWellSorted, Bool.and_eq_true, beq_iff_eq] at sorted
  exact term.split ⟨sorted.1.1, sorted.1.2, rfl, sorted.2.symm⟩ rfl rfl

theorem of_implication (term : TermOver P sort (.implication a b)) :
    TermOver P .bool a ∧ TermOver P .bool b := by
  refine term.split ?_ rfl rfl
  simpa [isWellSorted, and_assoc] using term.sorted

theorem of_minus (term : TermOver P sort (.minus a)) : TermOver P .int a := by
  have sorted := term.sorted
  simp only [isWellSorted, Bool.and_eq_true, beq_iff_eq] at sorted
  exact ⟨sorted.1, term.closed, sorted.2, term.within⟩

theorem of_negation (term : TermOver P sort (.negation a)) : TermOver P .bool a := by
  have sorted := term.sorted
  simp only [isWellSorted, Bool.and_eq_true, beq_iff_eq] at sorted
  exact ⟨sorted.1, term.closed, sorted.2, term.within⟩

theorem of_conditional (term : TermOver P sort (.conditional c a b)) :
    TermOver P .bool c ∧ TermOver P sort a ∧ TermOver P sort b := by
  obtain ⟨sorted, closed, sort_eq, within⟩ := term
  simp only [isWellSorted, Bool.and_eq_true, beq_iff_eq] at sorted
  simp only [hasNondet, Bool.or_eq_false_iff] at closed
  simp only [occurrences, List.mem_append] at within
  obtain ⟨⟨⟨⟨sortedC, sortedA⟩, sortedB⟩, sortC⟩, same⟩ := sorted
  exact ⟨⟨sortedC, closed.1.1, sortC, fun s h => within s (.inl (.inl h))⟩,
    ⟨sortedA, closed.1.2, sort_eq, fun s h => within s (.inl (.inr h))⟩,
    ⟨sortedB, closed.2, same.symm.trans sort_eq, fun s h => within s (.inr h)⟩⟩

theorem of_junction {connective : Connective} {es : List Expr}
    (term : TermOver P sort (.junction connective es)) : ∀ e ∈ es, TermOver P .bool e := by
  obtain ⟨sorted, closed, -, within⟩ := term
  simp only [isWellSorted, areConditions_iff, isCondition_iff] at sorted
  simp only [hasNondet, anyNondet_eq_any, List.any_eq_false, Bool.not_eq_true] at closed
  simp only [occurrences, occurrencesAll_eq_flatMap, List.mem_flatMap] at within
  intro e member
  exact ⟨(sorted e member).1, closed e member, (sorted e member).2,
    fun s h => within s ⟨e, member, h⟩⟩

end Parts

end TermOver

end TemplateAnalysis.Expr

namespace TemplateAnalysis

namespace Assignment

variable (m : Assignment)

/-- The condition is true. -/
def holds (e : Expr) : Bool := e.eval m.valuation == some (.bool true)

theorem holds_iff {e : Expr} : m.holds e = true ↔ e.eval m.valuation = some (.bool true) :=
  beq_iff_eq

variable {m} in
theorem holds_of_eval {e : Expr} {b : Bool} (value : e.eval m.valuation = some (.bool b)) :
    m.holds e = b := by
  cases b <;> simp [holds, value]

theorem eval_eq_holds {P : Symbol → Prop} {e : Expr} (term : e.TermOver P .bool) :
    e.eval m.valuation = some (.bool (m.holds e)) := by
  obtain ⟨x, value, sort⟩ := term.eval m
  cases x with
  | int n => cases sort
  | bool b => cases b <;> simp [holds, value]

/-- The literal is true. -/
def truth (s : Symbol) : Bool := m s == .bool true

theorem truth_iff {s : Symbol} : m.truth s = true ↔ m s = .bool true := beq_iff_eq

@[simp] theorem holds_var (s : Symbol) : m.holds (.var s) = m.truth s := rfl

@[simp] theorem holds_bool (b : Bool) : m.holds (.bool b) = b := by cases b <;> rfl

variable {P : Symbol → Prop} {a b : Expr}

theorem holds_disj {es : List Expr} (terms : ∀ e ∈ es, e.TermOver P .bool) :
    m.holds (Expr.disj es) = es.any m.holds :=
  holds_of_eval
    (Expr.eval_disj_of_bools m.holds fun e member => m.eval_eq_holds (terms e member))

theorem holds_and (first : a.TermOver P .bool) (second : b.TermOver P .bool) :
    m.holds (a.and b) = (m.holds a && m.holds b) :=
  holds_of_eval (Expr.eval_and_of_bools (m.eval_eq_holds first) (m.eval_eq_holds second))

theorem holds_implies (first : a.TermOver P .bool) (second : b.TermOver P .bool) :
    m.holds (a.implies b) = (!m.holds a || m.holds b) :=
  holds_of_eval (Expr.eval_implies_of_bools (m.eval_eq_holds first) (m.eval_eq_holds second))

theorem holds_not (term : a.TermOver P .bool) : m.holds a.not = !m.holds a :=
  holds_of_eval (Expr.eval_not_of_bool (m.eval_eq_holds term))

end Assignment

end TemplateAnalysis
