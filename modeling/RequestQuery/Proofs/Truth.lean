import RequestQuery.Predicate
import RequestQuery.Sql.Query

/-!
# Truth of conditions

A condition on a row with null columns may hold, fail or be unknown, and the connectives are those
of three-valued logic. A valuation answers every atomic test of a column on a row; it gives a truth
value to conditions (`Condition.truth`), to all that a query asks of its rows (`Query.truth`) and to
predicates (`Predicate.truth`).

* `Truth.all_append`, `Truth.any_append`: a group of groups of one connective is one group.
* `Condition.tests`, `Predicate.tests`: the atomic tests, from left to right.
* `Sql.RowReading`: a row as far as comparisons, null tests and matches of texts tell, and the
  valuation that follows from them.
-/

namespace RequestQuery

/-- A truth value of three-valued logic. -/
inductive Truth where
  | fails
  | unknown
  | holds
  deriving DecidableEq

namespace Truth

/-- The truth value of a fact that is known. -/
def ofBool : Bool → Truth
  | true => holds
  | false => fails

/-- Both hold. -/
def and : Truth → Truth → Truth
  | fails, _ => fails
  | _, fails => fails
  | holds, holds => holds
  | _, _ => unknown

/-- One of two holds. -/
def or : Truth → Truth → Truth
  | holds, _ => holds
  | _, holds => holds
  | fails, fails => fails
  | _, _ => unknown

/-- The opposite holds. -/
def not : Truth → Truth
  | fails => holds
  | unknown => unknown
  | holds => fails

/-- Every one holds. -/
def all (ts : List Truth) : Truth := ts.foldr and holds

/-- Some one holds. -/
def any (ts : List Truth) : Truth := ts.foldr or fails

theorem and_assoc (a b c : Truth) : (a.and b).and c = a.and (b.and c) := by
  cases a <;> cases b <;> cases c <;> rfl

theorem or_assoc (a b c : Truth) : (a.or b).or c = a.or (b.or c) := by
  cases a <;> cases b <;> cases c <;> rfl

@[simp] theorem holds_and (a : Truth) : holds.and a = a := by cases a <;> rfl

@[simp] theorem and_holds (a : Truth) : a.and holds = a := by cases a <;> rfl

@[simp] theorem fails_or (a : Truth) : fails.or a = a := by cases a <;> rfl

@[simp] theorem or_fails (a : Truth) : a.or fails = a := by cases a <;> rfl

theorem and_eq_holds {a b : Truth} : a.and b = holds ↔ a = holds ∧ b = holds := by
  cases a <;> cases b <;> decide

@[simp] theorem all_nil : all [] = holds := rfl

@[simp] theorem all_cons (t : Truth) (ts : List Truth) : all (t :: ts) = t.and (all ts) := rfl

@[simp] theorem any_nil : any [] = fails := rfl

@[simp] theorem any_cons (t : Truth) (ts : List Truth) : any (t :: ts) = t.or (any ts) := rfl

theorem all_append (ts us : List Truth) : all (ts ++ us) = (all ts).and (all us) := by
  induction ts with
  | nil => simp
  | cons t ts ih => rw [List.cons_append, all_cons, ih, all_cons, and_assoc]

theorem all_eq_holds {ts : List Truth} : all ts = holds ↔ ∀ t ∈ ts, t = holds := by
  induction ts with
  | nil => exact ⟨fun _ => nofun, fun _ => rfl⟩
  | cons t ts ih => rw [all_cons, and_eq_holds, ih, List.forall_mem_cons]

theorem any_append (ts us : List Truth) : any (ts ++ us) = (any ts).or (any us) := by
  induction ts with
  | nil => simp
  | cons t ts ih => rw [List.cons_append, any_cons, ih, any_cons, or_assoc]

end Truth

namespace Sql

/-- An atomic test: a column, given by its name, against a value. -/
structure Test where
  column : String
  op : Operator
  value : Value

/-- The test that an atom makes. -/
def Atom.test (a : Atom) : Test := ⟨a.column.text, a.op, a.value⟩

/-- What every atomic test says on a row. -/
abbrev Valuation : Type := Test → Truth

namespace Condition

mutual

/-- The truth of a condition under a valuation of its atoms. -/
def truth (v : Valuation) : Condition → Truth
  | .atom a => v a.test
  | .all parts => .all (truths v parts)
  | .any parts => .any (truths v parts)
  | .not part => (truth v part).not

/-- The truth of each of a list of conditions. -/
def truths (v : Valuation) : List Condition → List Truth
  | [] => []
  | part :: rest => truth v part :: truths v rest

end

mutual

/-- The atomic tests of a condition, from left to right. -/
def tests : Condition → List Test
  | .atom a => [a.test]
  | .all parts => testsOf parts
  | .any parts => testsOf parts
  | .not part => tests part

/-- The atomic tests of a list of conditions, from left to right. -/
def testsOf : List Condition → List Test
  | [] => []
  | part :: rest => tests part ++ testsOf rest

end

@[simp] theorem truths_append (v : Valuation) (cs ds : List Condition) :
    truths v (cs ++ ds) = truths v cs ++ truths v ds := by
  induction cs with
  | nil => rfl
  | cons c cs ih => rw [List.cons_append, truths, ih, truths, List.cons_append]

@[simp] theorem testsOf_append (cs ds : List Condition) :
    testsOf (cs ++ ds) = testsOf cs ++ testsOf ds := by
  induction cs with
  | nil => rfl
  | cons c cs ih => rw [List.cons_append, testsOf, ih, testsOf, List.append_assoc]

end Condition

/-- The truth of all that the rows of a query must satisfy. -/
def Query.truth (v : Valuation) (q : Query) : Truth := .all (Condition.truths v q.parts)

end Sql

namespace Predicate

/-- The truth of a predicate under a valuation of its tests; to be null is to equal null. -/
def truth (v : Sql.Valuation) : Predicate → Truth
  | .compare column op value => v ⟨column, .compare op, value⟩
  | .isNull column negated => v ⟨column, .compare (if negated then .ne else .eq), .null⟩
  | .like column anchor text => v ⟨column, .pattern anchor, .text text⟩
  | .and left right => (left.truth v).and (right.truth v)
  | .or left right => (left.truth v).or (right.truth v)
  | .not inner => (inner.truth v).not

/-- The atomic tests of a predicate, from left to right. -/
def tests : Predicate → List Sql.Test
  | .compare column op value => [⟨column, .compare op, value⟩]
  | .isNull column negated => [⟨column, .compare (if negated then .ne else .eq), .null⟩]
  | .like column anchor text => [⟨column, .pattern anchor, .text text⟩]
  | .and left right => left.tests ++ right.tests
  | .or left right => left.tests ++ right.tests
  | .not inner => inner.tests

theorem tested_eq (p : Predicate) : p.tested = p.tests.map (·.column) := by
  induction p with
  | compare column op value => rfl
  | isNull column negated => rfl
  | like column anchor text => rfl
  | and left right ihl ihr => rw [tested, ihl, ihr, tests, List.map_append]
  | or left right ihl ihr => rw [tested, ihl, ihr, tests, List.map_append]
  | not inner ih => exact ih

end Predicate

/-! ## Rows -/

namespace Sql

/-- A row, as far as tests can tell. Whether a column is null is always known; a comparison and the
match of a text may be unknown. -/
structure RowReading where
  isNull : String → Bool
  compare : String → Comparison → Value → Truth
  occurs : String → Anchor → Value → Truth

/-- What every atomic test says on a row: equality with null is the null test, and a column is in a
list when it equals some element. -/
def RowReading.valuation (row : RowReading) : Valuation
  | ⟨column, .compare .eq, .null⟩ => .ofBool (row.isNull column)
  | ⟨column, .compare .ne, .null⟩ => .ofBool (!row.isNull column)
  | ⟨column, .compare op, value⟩ => row.compare column op value
  | ⟨column, .member, value⟩ => .any ((listed value).map (row.compare column .eq))
  | ⟨column, .pattern anchor, value⟩ => row.occurs column anchor value

end Sql

end RequestQuery
