import RequestQuery.Options
import RequestQuery.Predicate
import RequestQuery.Selection
import RequestQuery.Sql.Query

/-!
# Plans

What is read for a request: the rows of the root and the levels to attach to them. Every column and
relation of a plan has been looked up.

* `Plan.steps`: the plan as steps of building a query, in their order.
* `Plan.applyTo`: a query restricted, sorted and cut as the plan says.
-/

namespace RequestQuery

/-- Whether a plan reads a list of rows or a single one. -/
inductive Plan.Shape where
  | collection
  | entity
  deriving DecidableEq

/-- What is read for a request. -/
structure Plan where
  resource : String
  table : String
  shape : Plan.Shape
  predicate : Option Predicate
  sort : List SortKey
  offset : Option UInt64
  limit : Option UInt32
  rootColumns : List String
  /-- The expansion, unless nothing is expanded. -/
  expansion : Option Expansion
  /-- The selection, unless nothing is selected. -/
  selection : Option Selection
  wantCount : Bool

namespace Plan

/-- Whether the plan reads a single row. -/
def isEntity (p : Plan) : Bool := p.shape = .entity

/-- The expansion as a nested list of names. -/
def eager? (p : Plan) : Option String := p.expansion.map (·.eager)

/-- A step of building a query. -/
inductive Step where
  | select (columns : List String)
  | filter (predicate : Predicate)
  | orderBy (column : String) (direction : Sql.Direction)
  | offset (rows : UInt64)
  | limit (rows : UInt32)

/-- The steps of a plan: columns, predicate, sort keys, and then the page. -/
def steps (p : Plan) : List Step :=
  [.select p.rootColumns] ++ p.predicate.toList.map .filter ++
    p.sort.map (fun key => .orderBy key.column key.direction) ++
    p.offset.toList.map .offset ++ p.limit.toList.map .limit

/-- Take a step. -/
def Step.applyTo (q : Sql.Query) : Step → Except Sql.BadName Sql.Query
  | .select columns => q.fields columns
  | .filter predicate => do return q.filterTree (← predicate.condition)
  | .orderBy column direction => q.sort column direction
  | .offset rows => .ok (q.offset rows)
  | .limit rows => .ok (q.limit rows)

/-- Take the steps of a plan. What restricts the query already stays. -/
def applyTo (p : Plan) (q : Sql.Query) : Except Sql.BadName Sql.Query :=
  p.steps.foldlM Step.applyTo q

end Plan

end RequestQuery
