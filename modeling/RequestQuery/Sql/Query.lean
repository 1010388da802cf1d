import RequestQuery.Sql.Where
import RequestQuery.Text.Split

/-!
# Queries of one table

A `Query` collects what a SELECT of one table needs and renders it, and the COUNT over the same
rows, for its dialect. Tests added one by one stand before the tree of conditions, and all are
joined by AND; a query may thus be restricted to trusted rows first, and further conditions can
only restrict it more.

* `Query.ofTable`, `fields`, `filter`, `filterTree`, `sort`, `limit`, `offset`: building a query.
  A name that is no identifier is refused.
* `Query.select`, `Query.count`: the statements.
-/

namespace RequestQuery.Sql

/-- A statement with the values of its placeholders, in their order. -/
structure Statement where
  text : String
  params : List Value

/-- A query of one table. -/
structure Query where
  dialect : Dialect
  table : Identifier
  /-- The columns to read; none means all. -/
  columns : List Identifier
  conditions : List Atom
  tree : Option Condition
  order : List (Identifier × Direction)
  maxRows : Option UInt32
  skipped : Option UInt64

namespace Query

/-! ## Building -/

/-- The query of all rows of a table. -/
def ofTable (d : Dialect) (table : String) : Except BadName Query := do
  let table ← nameFor .table table
  return ⟨d, table, [], [], none, [], none, none⟩

/-- Read these columns. -/
def fields (q : Query) (columns : List String) : Except BadName Query := do
  return { q with columns := ← columns.mapM (nameFor .field) }

/-- Keep only the rows that pass a test. -/
def filter (q : Query) (column : String) (op : Operator) (value : Value) :
    Except BadName Query := do
  let atom ← Atom.ofName column op value
  return { q with conditions := q.conditions ++ [atom] }

/-- A condition joined to an earlier one: a part more for a conjunction. -/
def conjoin (earlier : Option Condition) (c : Condition) : Condition :=
  match earlier with
  | none => c
  | some (.all parts) => .all (parts ++ [c])
  | some other => .all [other, c]

/-- Keep only the rows for which a tree of conditions holds. -/
def filterTree (q : Query) (c : Condition) : Query := { q with tree := some (conjoin q.tree c) }

/-- Sort by one more column. -/
def sort (q : Query) (column : String) (direction : Direction) : Except BadName Query := do
  let column ← nameFor .sortField column
  return { q with order := q.order ++ [(column, direction)] }

/-- Return at most so many rows. -/
def limit (q : Query) (rows : UInt32) : Query := { q with maxRows := some rows }

/-- Leave out so many rows. -/
def offset (q : Query) (rows : UInt64) : Query := { q with skipped := some rows }

/-! ## Rendering -/

/-- All that the rows must satisfy, in the order in which it is written. -/
def parts (q : Query) : List Condition := q.conditions.map .atom ++ q.tree.toList

/-- The condition on the rows. -/
def condition (q : Query) : Fragment :=
  Fragment.joinWith .and (Condition.fragments q.dialect 1 q.parts)

/-- The WHERE clause, absent without conditions. -/
def whereText (q : Query) : String :=
  if q.parts.isEmpty then "" else " WHERE " ++ q.condition.text q.dialect

/-- The columns that are read. -/
def columnsText (q : Query) : String :=
  if q.columns.isEmpty then "*" else Text.join ", " (q.columns.map (·.text))

/-- The ORDER BY clause, absent without sort keys. -/
def orderText (q : Query) : String :=
  if q.order.isEmpty then ""
  else " ORDER BY " ++
    Text.join ", " (q.order.map fun (column, direction) => column.text ++ " " ++ direction.sql)

/-- The limit and the offset. -/
def pageText (q : Query) : String :=
  match q.maxRows, q.skipped with
  | some rows, some skipped => s!" LIMIT {rows.toNat} OFFSET {skipped.toNat}"
  | some rows, none => s!" LIMIT {rows.toNat}"
  | none, some skipped => q.dialect.bareOffset skipped
  | none, none => ""

/-- The statement that reads the rows. -/
def select (q : Query) : Statement where
  text := s!"SELECT {q.columnsText} FROM {q.table.text}" ++ q.whereText ++ q.orderText ++ q.pageText
  params := q.condition.params

/-- The statement that counts the rows, of all pages. -/
def count (q : Query) : Statement where
  text := s!"SELECT COUNT(*) AS count FROM {q.table.text}" ++ q.whereText
  params := q.condition.params

end Query

end RequestQuery.Sql
