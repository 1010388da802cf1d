import RequestQuery.Event
import RequestQuery.Filter.Check
import RequestQuery.Settings.Config

/-!
# Compiling requests

A planner holds a schema and a configuration and turns requests into plans. Compilation is all or
nothing: the first violation is returned. The order is that of the stages: resource, options,
filter, sort keys, expansion, selection, and for a single row its id.

* `Planner.compile`: the plan of a request, of a page of rows or of the row with an id.
* `Planner.collection`, `Planner.entity`: the two kinds of request.
* `Planner.withLimits`, `Planner.withConfig`: other settings, checked first.
-/

namespace RequestQuery

/-- A schema and the settings of requests to it. -/
structure Planner where
  schema : Schema
  config : Config := {}

namespace Planner

/-! ## Settings -/

/-- Take a configuration in place of the present one, unless it cannot be used. -/
def withConfig (p : Planner) (config : Config) : Except SettingsFault Planner := do
  config.check
  return { p with config := config }

/-- Take limits in place of the present ones, unless they cannot be used. -/
def withLimits (p : Planner) (limits : Limits) : Except SettingsFault Planner := do
  limits.check
  return { p with config := { p.config with limits := limits } }

/-! ## Ids -/

/-- The texts of id values with commas between them. -/
def idText (id : List Value) : String := Text.join "," (id.map fun v => v.toJson.toText)

/-- A conjunction of predicates, grouped to the left. -/
def conjunction? : List Predicate → Option Predicate
  | [] => none
  | first :: rest => some (rest.foldl .and first)

/-- The predicate of the row with an id. -/
def idPredicate (root : Resource) (id : List Value) : Except Rejection Predicate :=
  let refuse (reason : Refusal) := .error (.invalid "id" (idText id) reason)
  if id.length ≠ root.idColumns.length then refuse (.idCount root.idColumns.length)
  else if id.any Value.isList then refuse .scalarIdExpected
  else
    match conjunction? (List.zipWith Predicate.equals root.idColumns id) with
    | some predicate => .ok predicate
    | none => refuse .noIdColumns

/-! ## Requests -/

/-- The predicate of the filter of a request, if it has one. -/
def filterPredicate (root : Resource) (limits : Limits) :
    Option String → Except Rejection (Option Predicate)
  | none => .ok none
  | some source => some <$> Filter.compile source root limits

/-- Every sort key is a column that a request may name. -/
def checkSort (root : Resource) (sort : List SortKey) : Except Rejection Unit :=
  match sort.find? fun key => !root.isAllowedColumn key.column with
  | some key => .error (.unknownColumn .sort key.column root.name)
  | none => .ok ()

/-- Which rows of the root a plan reads, and in which order. -/
structure Extent where
  shape : Plan.Shape
  predicate : Option Predicate
  sort : List SortKey
  offset : Option UInt64
  limit : UInt32

/-- The rows that the options and the filter of a request describe, or the row with an id, which
the filter restricts further. -/
def extent (root : Resource) (options : Options) (filter : Option Predicate) :
    Option (List Value) → Except Rejection Extent
  | none => .ok {
      shape := .collection
      predicate := filter
      sort := options.sort
      offset := options.skip
      limit := options.top }
  | some id => do
    let row ← idPredicate root id
    return {
      shape := .entity
      predicate := some (filter.elim row row.and)
      sort := []
      offset := none
      limit := 1 }

/-- The plan of a request: of a page of rows or, with an id, of the row that has it. -/
def compile (p : Planner) (resource : String) (parameters : Parameters)
    (id : Option (List Value)) : Except Rejection Plan := do
  let limits := p.config.limits
  let some root := p.schema.get? resource | .error (.notFound "resource" resource)
  let options ← Options.validate parameters (p.config.contractFor resource) limits
  let filter ← filterPredicate root limits options.filter
  checkSort root options.sort
  let bare ← Expansion.build p.schema resource options.expand limits
  let (selection, expansion) ← Selection.build p.schema root options.select bare limits
  let rows ← extent root options filter id
  return {
    resource := root.name
    table := root.table
    shape := rows.shape
    predicate := rows.predicate
    sort := rows.sort
    offset := rows.offset
    limit := some rows.limit
    rootColumns := selection.rootColumns root expansion
    expansion := if expansion.isEmpty then none else some expansion
    selection := if selection.isEmpty then none else some selection
    wantCount := options.count }

/-- The plan of a page of rows. -/
def collection (p : Planner) (resource : String) (parameters : Parameters) :
    Except Rejection Plan :=
  p.compile resource parameters none

/-- The plan of the row with an id. -/
def entity (p : Planner) (resource : String) (parameters : Parameters) (id : List Value) :
    Except Rejection Plan :=
  p.compile resource parameters (some id)

end Planner

end RequestQuery
