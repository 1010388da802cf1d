import RequestQuery.Proofs.AcceptedNames
import RequestQuery.Proofs.CheckedFilter
import RequestQuery.Proofs.Truth

/-!
# The meaning of filters

A filter is read on a row as it is written (`Filter.truth`), before any column is looked up. Its
check makes a predicate of it and the predicate becomes a condition, in which chains of one
connective are single groups. Both steps keep the truth value on every row, and the atomic tests
with their order. The main statement puts the two together, from a filter to its condition.

* `Predicate.truth_condition`, `Predicate.tests_condition`: from a predicate to its condition.
* `Filter.truth_check`, `Filter.tests_check`: from a filter to its predicate.
-/

namespace RequestQuery

open Fallible

/-! ## Groups -/

namespace Predicate

open Sql (Condition)

theorem all_truths_conjuncts (v : Sql.Valuation) (c : Condition) :
    .all (Condition.truths v (conjuncts c)) = c.truth v := by
  cases c with
  | all parts => rfl
  | atom a => exact Truth.and_holds _
  | any parts => exact Truth.and_holds _
  | not part => exact Truth.and_holds _

theorem any_truths_disjuncts (v : Sql.Valuation) (c : Condition) :
    .any (Condition.truths v (disjuncts c)) = c.truth v := by
  cases c with
  | any parts => rfl
  | atom a => exact Truth.or_fails _
  | all parts => exact Truth.or_fails _
  | not part => exact Truth.or_fails _

theorem testsOf_conjuncts (c : Condition) : Condition.testsOf (conjuncts c) = c.tests := by
  cases c with
  | all parts => rfl
  | atom a => rfl
  | any parts => exact List.append_nil _
  | not part => exact List.append_nil _

theorem testsOf_disjuncts (c : Condition) : Condition.testsOf (disjuncts c) = c.tests := by
  cases c with
  | any parts => rfl
  | atom a => rfl
  | all parts => exact List.append_nil _
  | not part => exact List.append_nil _

/-! ## From predicates to conditions -/

/-- The condition of a single test asks the test. -/
theorem truth_of_atom {column : String} {op : Sql.Operator} {value : Value} {c : Condition}
    (h : atom column op value = .ok c) (v : Sql.Valuation) :
    c.truth v = v ⟨column, op, value⟩ := by
  obtain ⟨i, hi, rfl⟩ := atom_eq_ok.1 h
  rw [Condition.truth, Sql.Atom.test, Sql.text_of_nameFor hi]

/-- The condition of a single test has no other test. -/
theorem tests_of_atom {column : String} {op : Sql.Operator} {value : Value} {c : Condition}
    (h : atom column op value = .ok c) : c.tests = [⟨column, op, value⟩] := by
  obtain ⟨i, hi, rfl⟩ := atom_eq_ok.1 h
  rw [Condition.tests, Sql.Atom.test, Sql.text_of_nameFor hi]

/-- **A predicate and its condition have the same truth value on every row.** A chain of one
connective is one group, which changes nothing as the connectives are associative. -/
theorem truth_condition {p : Predicate} {c : Condition} (h : p.condition = .ok c)
    (v : Sql.Valuation) : c.truth v = p.truth v := by
  induction p generalizing c with
  | compare column op value => exact truth_of_atom h v
  | isNull column negated => exact truth_of_atom h v
  | like column anchor text => exact truth_of_atom h v
  | and left right ihl ihr =>
    obtain ⟨l, r, hl, hr, rfl⟩ := condition_and_eq_ok.1 h
    rw [Condition.truth, Condition.truths_append, Truth.all_append, all_truths_conjuncts,
      all_truths_conjuncts, ihl hl, ihr hr, truth]
  | or left right ihl ihr =>
    obtain ⟨l, r, hl, hr, rfl⟩ := condition_or_eq_ok.1 h
    rw [Condition.truth, Condition.truths_append, Truth.any_append, any_truths_disjuncts,
      any_truths_disjuncts, ihl hl, ihr hr, truth]
  | not inner ih =>
    obtain ⟨part, hpart, rfl⟩ := condition_not_eq_ok.1 h
    rw [Condition.truth, ih hpart, truth]

/-- The condition of a predicate has its atomic tests in their order. -/
theorem tests_condition {p : Predicate} {c : Condition} (h : p.condition = .ok c) :
    c.tests = p.tests := by
  induction p generalizing c with
  | compare column op value => exact tests_of_atom h
  | isNull column negated => exact tests_of_atom h
  | like column anchor text => exact tests_of_atom h
  | and left right ihl ihr =>
    obtain ⟨l, r, hl, hr, rfl⟩ := condition_and_eq_ok.1 h
    rw [Condition.tests, Condition.testsOf_append, testsOf_conjuncts, testsOf_conjuncts, ihl hl,
      ihr hr, tests]
  | or left right ihl ihr =>
    obtain ⟨l, r, hl, hr, rfl⟩ := condition_or_eq_ok.1 h
    rw [Condition.tests, Condition.testsOf_append, testsOf_disjuncts, testsOf_disjuncts, ihl hl,
      ihr hr, tests]
  | not inner ih =>
    obtain ⟨part, hpart, rfl⟩ := condition_not_eq_ok.1 h
    rw [Condition.tests, ih hpart, tests]

end Predicate

/-! ## From filters to predicates -/

namespace Filter

/-- The truth of a filter on a row, as it is written. Equality with null is the null test; a call
that is no match of a column with a text says nothing. -/
def truth (row : Sql.RowReading) : Filter → Truth
  | .compare column .eq .null => .ofBool (row.isNull column)
  | .compare column .ne .null => .ofBool (!row.isNull column)
  | .compare column op literal => row.compare column op literal.value
  | .call function args =>
    match Anchor.ofFunction? function, args with
    | some anchor, [.column column, .literal (.text text)] => row.occurs column anchor (.text text)
    | _, _ => .unknown
  | .and left right => (left.truth row).and (right.truth row)
  | .or left right => (left.truth row).or (right.truth row)
  | .not inner => (inner.truth row).not

/-- The leaves of a filter, from left to right, as the atomic tests that they write; a call that is
no match of a column with a text writes none. -/
def tests : Filter → List (Option Sql.Test)
  | .compare column op literal => [some ⟨column, .compare op, literal.value⟩]
  | .call function args =>
    match Anchor.ofFunction? function, args with
    | some anchor, [.column column, .literal (.text text)] =>
      [some ⟨column, .pattern anchor, .text text⟩]
    | _, _ => [none]
  | .and left right => left.tests ++ right.tests
  | .or left right => left.tests ++ right.tests
  | .not inner => inner.tests

variable {r : Resource} {f : Filter} {p : Predicate}

/-- A literal other than null is compared as any value. -/
theorem valuation_compare (row : Sql.RowReading) (column : String) (op : Comparison)
    {literal : Literal} (h : literal ≠ .null) :
    row.valuation ⟨column, .compare op, literal.value⟩ =
      truth row (.compare column op literal) := by
  cases literal with
  | null => exact absurd rfl h
  | text s => cases op <;> rfl
  | int n => cases op <;> rfl
  | decimal x => cases op <;> rfl
  | bool b => cases op <;> rfl

/-- **A filter and its predicate have the same truth value on every row.** -/
theorem truth_check (h : check r f = .ok p) (row : Sql.RowReading) :
    p.truth row.valuation = f.truth row := by
  induction f generalizing p with
  | compare column op literal =>
    obtain ⟨-, ⟨rfl, rfl, rfl⟩ | ⟨rfl, rfl, rfl⟩ | ⟨hl, rfl⟩⟩ := checkCompare_eq_ok.1 h
    · rfl
    · rfl
    · exact valuation_compare row column op hl
  | call function args =>
    obtain ⟨anchor, column, text, hf, rfl, -, rfl⟩ := checkCall_eq_ok.1 h
    simp only [truth, hf]
    rfl
  | and left right ihl ihr =>
    obtain ⟨p₁, p₂, h₁, h₂, rfl⟩ := check_and_eq_ok.1 h
    rw [Predicate.truth, ihl h₁, ihr h₂, truth]
  | or left right ihl ihr =>
    obtain ⟨p₁, p₂, h₁, h₂, rfl⟩ := check_or_eq_ok.1 h
    rw [Predicate.truth, ihl h₁, ihr h₂, truth]
  | not inner ih =>
    obtain ⟨p₁, h₁, rfl⟩ := check_not_eq_ok.1 h
    rw [Predicate.truth, ih h₁, truth]

/-- The predicate of a filter has its leaves in their order. -/
theorem tests_check (h : check r f = .ok p) : f.tests = p.tests.map some := by
  induction f generalizing p with
  | compare column op literal =>
    obtain ⟨-, ⟨rfl, rfl, rfl⟩ | ⟨rfl, rfl, rfl⟩ | ⟨-, rfl⟩⟩ := checkCompare_eq_ok.1 h <;> rfl
  | call function args =>
    obtain ⟨anchor, column, text, hf, rfl, -, rfl⟩ := checkCall_eq_ok.1 h
    simp only [tests, hf]
    rfl
  | and left right ihl ihr =>
    obtain ⟨p₁, p₂, h₁, h₂, rfl⟩ := check_and_eq_ok.1 h
    rw [tests, ihl h₁, ihr h₂, Predicate.tests, List.map_append]
  | or left right ihl ihr =>
    obtain ⟨p₁, p₂, h₁, h₂, rfl⟩ := check_or_eq_ok.1 h
    rw [tests, ihl h₁, ihr h₂, Predicate.tests, List.map_append]
  | not inner ih =>
    obtain ⟨p₁, h₁, rfl⟩ := check_not_eq_ok.1 h
    rw [tests, ih h₁, Predicate.tests]

/-- **A filter that passes its check keeps its meaning.** Its predicate has its truth value on every
row; a condition comes of the predicate exactly when every leaf names a column by an identifier, and
it has that truth value too, and the leaves of the filter as its atomic tests, in their order. -/
theorem meaning_of_check (h : check r f = .ok p) :
    (∀ row : Sql.RowReading, p.truth row.valuation = f.truth row) ∧
      ((∃ c, p.condition = .ok c) ↔
        ∀ t, some t ∈ f.tests → Sql.Identifier.flaw? t.column = none) ∧
        ∀ c, p.condition = .ok c →
          (∀ row : Sql.RowReading, c.truth row.valuation = f.truth row) ∧
            f.tests = c.tests.map some := by
  refine ⟨truth_check h, ?_, fun c hc => ⟨fun row => ?_, ?_⟩⟩
  · rw [Predicate.exists_condition_iff, Predicate.tested_eq, tests_check h]
    simp only [List.mem_map, Option.some.injEq, exists_eq_right, forall_exists_index, and_imp,
      forall_apply_eq_imp_iff₂]
  · rw [Predicate.truth_condition hc, truth_check h]
  · rw [Predicate.tests_condition hc, tests_check h]

/-- Songs, with a title that may be missing. -/
def songs : Resource := { Resource.ofName "songs" with properties := ["title", "year"] }

/-- Songs without a title, or from before 1980 with a title that neither has a star in it nor begins
with an article. -/
def starless : Filter :=
  .or (.compare "title" .eq .null)
    (.and (.compare "year" .lt (.int 1980))
      (.not (.or (.call "contains" [.column "title", .literal (.text "star")])
        (.call "startswith" [.column "title", .literal (.text "the ")]))))

theorem meaning_of_check_starless : ∃ p, check songs starless = .ok p ∧
    (∀ row : Sql.RowReading, p.truth row.valuation = starless.truth row) ∧
      ((∃ c, p.condition = .ok c) ↔
        ∀ t, some t ∈ starless.tests → Sql.Identifier.flaw? t.column = none) ∧
        ∀ c, p.condition = .ok c →
          (∀ row : Sql.RowReading, c.truth row.valuation = starless.truth row) ∧
            starless.tests = c.tests.map some := by
  obtain ⟨p, h⟩ := exists_of_isOk (x := check songs starless) (by decide +kernel)
  exact ⟨p, h, meaning_of_check h⟩

end Filter

end RequestQuery
