import RequestQuery.Sql.Identifier
import RequestQuery.Sql.Operator
import RequestQuery.Sql.Value

/-!
# Conditions

Trees of tests of columns against bound values, as a statement restricts its rows by them.
-/

namespace RequestQuery.Sql

/-- The test of one column against a bound value. -/
structure Atom where
  column : Identifier
  op : Operator
  value : Value

/-- A tree of tests. -/
inductive Condition where
  | atom (a : Atom)
  /-- Every part holds; true without parts. -/
  | all (parts : List Condition)
  /-- Some part holds; false without parts. -/
  | any (parts : List Condition)
  /-- The part does not hold. -/
  | not (part : Condition)

instance : Inhabited Condition := ⟨.all []⟩

/-- The test of a column given by its name. -/
def Atom.ofName (column : String) (op : Operator) (value : Value) : Except BadName Atom := do
  return ⟨← nameFor .filterColumn column, op, value⟩

end RequestQuery.Sql
