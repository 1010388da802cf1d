import RequestQuery.Expansion

/-!
# Selections

The columns that a request asks for, at the root and at expanded relations. Columns that identify
and join rows are read whether selected or not.

* `Selection.normalize`: an entry with slashes for points and its names trimmed.
* `Selection.build`: the selection of a list of entries, and the expansion with the selected columns
  noted at its levels.
* `Selection.rootColumns`: the columns that are read at the root.
-/

namespace RequestQuery

/-- The columns that a request asks for. -/
structure Selection where
  /-- The columns of the root. -/
  topLevel : List String
  /-- The columns of each expanded path. -/
  nested : Dict (List String)

namespace Selection

/-- Nothing is selected. -/
def empty : Selection := ⟨[], Dict.empty⟩

/-- Whether nothing is selected. -/
def isEmpty (s : Selection) : Bool := s.topLevel.isEmpty && s.nested.entries.isEmpty

/-- An entry with slashes for points and its names trimmed. -/
def normalize (entry : String) : String :=
  let slashed := String.ofList (entry.toList.map fun c => if c = '.' then '/' else c)
  Text.join "/" ((Text.split '/' slashed).map Text.trim)

/-- One more column of the root, if it is allowed. -/
def addRoot (root : Resource) (s : Selection) (column : String) : Except Rejection Selection :=
  if root.isAllowedColumn column then .ok { s with topLevel := s.topLevel ++ [column] }
  else .error (.unknownColumn .select column root.name)

/-- One more column of an expanded path. -/
def addNested (s : Selection) (path column : String) : Selection :=
  { s with nested := s.nested.insert path ((s.nested.get? path).getD [] ++ [column]) }

/-- One more entry, noted in the selection and in the expansion. -/
def addEntry (schema : Schema) (root : Resource) (sofar : Selection × Expansion)
    (entry : String) : Except Rejection (Selection × Expansion) := do
  let (s, expansion) := sofar
  match Text.splitLast? '/' entry with
  | none => return (← s.addRoot root entry, expansion)
  | some (path, column) =>
    let some branch := expansion.branch? path | .error (.unexpandedRelation entry path)
    match schema.get? branch.resource with
    | some target =>
      if target.isAllowedColumn column then
        return (s.addNested path column, expansion.select path column)
      else .error (.unknownColumn .select column branch.resource)
    | none => .error (.unknownColumn .select column branch.resource)

/-- The selection of a list of entries. Entries that are the same once normalized count once. -/
def build (schema : Schema) (root : Resource) (entries : List String) (expansion : Expansion)
    (limits : Limits) : Except Rejection (Selection × Expansion) := do
  let unique := Columns.distinct (entries.map normalize)
  if limits.maxColumns < unique.length then
    .error (.limitExceeded .columns limits.maxColumns unique.length)
  unique.foldlM (addEntry schema root) (empty, expansion)

/-- The columns that are read at the root: default columns and the columns that join the first
levels, then the selected columns, or every allowed one when none is selected. -/
def rootColumns (s : Selection) (root : Resource) (expansion : Expansion) : List String :=
  Columns.distinct (root.defaultColumns ++ expansion.rootJoinColumns ++
    (if s.topLevel.isEmpty then root.allowedColumns else s.topLevel))

end Selection

end RequestQuery
