import RequestQuery.Schema.Basic
import RequestQuery.Settings.Limits
import RequestQuery.Text.Blank

/-!
# Expansions

The relations that a request asks to have attached to its rows, as a tree: below each expanded
relation stand the relations expanded from its target, in the order of their names.

* `Level`: what is read for an expanded relation, and which of its columns were selected.
* `Branch`: a level with the branches below it; `Expansion`: the branches below the root.
* `Expansion.build`: the expansion of a list of paths. Each path is checked for its form and its
  length before any is resolved.
* `Branch.columns`: the columns that are read at a level.
* `Expansion.eager`: the tree as a nested list of names.
-/

namespace RequestQuery

/-- What is read for an expanded relation. -/
structure Level where
  /-- The name of the relation. -/
  name : String
  /-- The names from the root, with slashes between them. -/
  path : String
  relation : Relation
  table : String
  primaryKey : List String
  /-- The columns that are read whatever is selected. -/
  defaultColumns : List String
  allowedColumns : List String
  selected : List String

/-- The level of a relation to a target: its default columns are those of the target and the one
that joins it. -/
def Level.ofRelation (name path : String) (relation : Relation) (target : Resource) : Level where
  name := name
  path := path
  relation := relation
  table := target.table
  primaryKey := target.idColumns
  defaultColumns := Columns.add target.defaultColumns relation.relatedColumn
  allowedColumns := target.allowedColumns
  selected := []

/-- An expanded relation with the relations expanded from its target. -/
inductive Branch where
  | mk (level : Level) (branches : List Branch)

namespace Branch

/-- What is read for the relation. -/
def level : Branch → Level
  | mk level _ => level

/-- The branches below. -/
def branches : Branch → List Branch
  | mk _ branches => branches

/-- The name of the relation. -/
def name (b : Branch) : String := b.level.name

/-- The name of the resource that is read. -/
def resource (b : Branch) : String := b.level.relation.target

/-- The branch with a name. -/
def find? (name : String) (branches : List Branch) : Option Branch :=
  branches.find? fun b => b.name == name

/-- Put a branch at its name, in place of an earlier one. -/
def put (b : Branch) : List Branch → List Branch
  | [] => [b]
  | other :: rest =>
    if b.name < other.name then b :: other :: rest
    else if b.name = other.name then b :: rest
    else other :: put b rest

/-- The columns that join the given branches to the level above them. -/
def joinColumns (branches : List Branch) : List String :=
  Columns.distinct (branches.map (·.level.relation.ownerColumn))

/-- The columns that are read: default columns and the columns that join the branches below, then
the selected columns, or every allowed one when none is selected. -/
def columns (b : Branch) : List String :=
  let always := Columns.addAll b.level.defaultColumns (joinColumns b.branches)
  Columns.addAll always
    (if b.level.selected.isEmpty then b.level.allowedColumns else b.level.selected)

mutual

/-- The name of the relation, with the names below it after a point. -/
def eager : Branch → String
  | mk level branches =>
    if branches.isEmpty then level.name
    else level.name ++ ".[" ++ Text.join ", " (eagers branches) ++ "]"

/-- The names of branches. -/
def eagers : List Branch → List String
  | [] => []
  | b :: rest => b.eager :: eagers rest

end

/-! ## Adding and changing branches -/

/-- Add the branches of a path below a resource. `above` is the path to the resource, and `path`
what the request wrote. -/
def addPath (s : Schema) (limits : Limits) (path : String) (parent : Resource)
    (above : List String) : (segments : List String) → List Branch → Except Rejection (List Branch)
  | [], branches => .ok branches
  | segment :: rest, branches =>
    if limits.maxRecursionDepth ≤ above.length then
      .error (.limitExceeded .recursionDepth limits.maxRecursionDepth (above.length + 1))
    else
      match parent.allowedRelation? segment with
      | none => .error (.unknownRelation path segment)
      | some relation =>
        match s.get? relation.target with
        | none => .error (.unknownRelation path segment)
        | some target => do
          let here := above ++ [segment]
          let branch := (find? segment branches).getD
            (mk (.ofRelation segment (Text.join "/" here) relation target) [])
          let below ← addPath s limits path target here rest branch.branches
          return put (mk branch.level below) branches

/-- The branch at the end of a path. -/
def follow? : (segments : List String) → List Branch → Option Branch
  | [], _ => none
  | [segment], branches => find? segment branches
  | segment :: rest, branches =>
    match find? segment branches with
    | none => none
    | some b => follow? rest b.branches

/-- Select one more column at the end of a path. -/
def select (column : String) : (segments : List String) → List Branch → List Branch
  | [], branches => branches
  | segment :: rest, branches =>
    match find? segment branches with
    | none => branches
    | some b =>
      match rest with
      | [] =>
        put (mk { b.level with selected := Columns.add b.level.selected column } b.branches)
          branches
      | _ => put (mk b.level (select column rest b.branches)) branches

end Branch

/-- The relations that a request expands from its root. -/
structure Expansion where
  branches : List Branch

namespace Expansion

/-- Nothing is expanded. -/
def empty : Expansion := ⟨[]⟩

/-- Whether nothing is expanded. -/
def isEmpty (e : Expansion) : Bool := e.branches.isEmpty

/-- The branch at a path with slashes between the names. -/
def branch? (e : Expansion) (path : String) : Option Branch :=
  Branch.follow? (Text.split '/' path) e.branches

/-- Select one more column at a path. -/
def select (e : Expansion) (path column : String) : Expansion :=
  ⟨Branch.select column (Text.split '/' path) e.branches⟩

/-- The columns of the root that join the first levels. -/
def rootJoinColumns (e : Expansion) : List String := Branch.joinColumns e.branches

/-- The tree as a nested list of names. -/
def eager (e : Expansion) : String := "[" ++ Text.join ", " (Branch.eagers e.branches) ++ "]"

/-- The names of a path, trimmed. Its form and its length are checked, and nothing is looked up. -/
def segments (limits : Limits) (path : String) : Except Rejection (List String) :=
  let segments := (Text.split '/' path).map Text.trim
  if segments.contains "" then
    .error (.invalid QueryOption.expand.key path .emptySegment)
  else if limits.maxRecursionDepth < segments.length then
    .error (.limitExceeded .recursionDepth limits.maxRecursionDepth segments.length)
  else .ok segments

/-- The expansion of a list of paths from the resource with a name. -/
def build (s : Schema) (root : String) (paths : List String) (limits : Limits) :
    Except Rejection Expansion := do
  if limits.maxRelations < paths.length then
    .error (.limitExceeded .relations limits.maxRelations paths.length)
  let split ← paths.mapM fun path => do return (path, ← segments limits path)
  let resource ← s.resolve QueryOption.expand.key root []
  let branches ← split.foldlM
    (fun branches (path, segments) => Branch.addPath s limits path resource [] segments branches) []
  return ⟨branches⟩

end Expansion

end RequestQuery
