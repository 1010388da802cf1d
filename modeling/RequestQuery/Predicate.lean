import RequestQuery.Columns
import RequestQuery.Sql.Condition

/-!
# Predicates

A filter whose columns have been looked up: a tree of tests that names allowed columns only.

* `Predicate.columns`: the columns that are tested, in the order of first appearance.
* `Predicate.condition`: the predicate as a condition of a statement; chains of one connective
  become one group.
-/

namespace RequestQuery

/-- A tree of tests of columns. -/
inductive Predicate where
  | compare (column : String) (op : Comparison) (value : Value)
  | isNull (column : String) (negated : Bool)
  /-- The column has the text in the given place. -/
  | like (column : String) (anchor : Anchor) (text : String)
  | and (left right : Predicate)
  | or (left right : Predicate)
  | not (inner : Predicate)

namespace Predicate

instance : Inhabited Predicate := ⟨.isNull "" false⟩

/-- A column equals a value, or is null for the null value. -/
def equals (column : String) (value : Value) : Predicate :=
  if value.isNull then .isNull column false else .compare column .eq value

/-- The columns of the tests, in order. -/
def tested : Predicate → List String
  | .compare column _ _ => [column]
  | .isNull column _ => [column]
  | .like column _ _ => [column]
  | .and left right => left.tested ++ right.tested
  | .or left right => left.tested ++ right.tested
  | .not inner => inner.tested

/-- The columns that are tested, without repeats. -/
def columns (p : Predicate) : List String := Columns.distinct p.tested

/-- The parts of a conjunction, and any other condition as its only part. -/
def conjuncts : Sql.Condition → List Sql.Condition
  | .all parts => parts
  | c => [c]

/-- The parts of a disjunction, and any other condition as its only part. -/
def disjuncts : Sql.Condition → List Sql.Condition
  | .any parts => parts
  | c => [c]

/-- A single test as a condition. -/
def atom (column : String) (op : Sql.Operator) (value : Value) :
    Except Sql.BadName Sql.Condition := do
  return .atom (← Sql.Atom.ofName column op value)

/-- The predicate as a condition. A column that is no identifier is refused. -/
def condition : Predicate → Except Sql.BadName Sql.Condition
  | .compare column op value => atom column (.compare op) value
  | .isNull column negated => atom column (.compare (if negated then .ne else .eq)) .null
  | .like column anchor text => atom column (.pattern anchor) (.text text)
  | .and left right => do
    let l ← left.condition
    let r ← right.condition
    return .all (conjuncts l ++ conjuncts r)
  | .or left right => do
    let l ← left.condition
    let r ← right.condition
    return .any (disjuncts l ++ disjuncts r)
  | .not inner => do return .not (← inner.condition)

end Predicate

end RequestQuery
