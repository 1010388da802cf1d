import RequestQuery.Columns
import RequestQuery.Dict

/-!
# Resources and relations

What a request may be about: a resource has a table, columns and relations to other resources, and
may restrict the columns and relations that requests name.

* `Relation`: a named link; rows join where the owner's column equals the related one.
* `Resource.columns`: properties, id columns, and the columns of relations that belong to another
  resource.
* `Resource.isAllowedColumn`, `Resource.allowedRelation?`: what a request may name.
* `Resource.defaultColumns`: the columns that are always read.
-/

namespace RequestQuery

/-- How a relation links the resource that declares it to another one. -/
inductive Relation.Kind where
  /-- The declaring resource holds the key of one target row. -/
  | belongsTo
  /-- One target row holds the key of the declaring resource. -/
  | hasOne
  /-- Many target rows hold the key of the declaring resource. -/
  | hasMany
  deriving DecidableEq

/-- Whether a relation gives a list of rows. -/
def Relation.Kind.isMany : Relation.Kind → Bool
  | .hasMany => true
  | _ => false

/-- A link from one resource to another. -/
structure Relation where
  kind : Relation.Kind
  /-- The name of the other resource. -/
  target : String
  /-- The column of the declaring resource. -/
  ownerColumn : String
  /-- The column of the other resource. -/
  relatedColumn : String
  deriving DecidableEq

/-- A resource. -/
structure Resource where
  name : String
  table : String
  properties : List String
  idColumns : List String
  relations : Dict Relation
  /-- The only columns that a request may name, if they are restricted. -/
  columnList : Option NameSet
  /-- The only relations that a request may expand, if they are restricted. -/
  relationList : Option NameSet

namespace Resource

/-- A resource with a table of its own name, the id column `id`, and nothing else. -/
def ofName (name : String) : Resource := ⟨name, name, [], ["id"], Dict.empty, none, none⟩

/-- The columns that hold keys of other resources, in the order of the relations. -/
def foreignKeys (r : Resource) : List String :=
  (r.relations.values.filter (·.kind = .belongsTo)).map (·.ownerColumn)

/-- Every column, without repeats. -/
def columns (r : Resource) : List String :=
  Columns.distinct (r.properties ++ r.idColumns ++ r.foreignKeys)

/-- Whether a column is declared. -/
def hasColumn (r : Resource) (column : String) : Bool :=
  r.properties.contains column || r.idColumns.contains column || r.foreignKeys.contains column

/-- The declared columns are the ones that are listed. -/
theorem hasColumn_iff {r : Resource} {column : String} :
    r.hasColumn column = true ↔ column ∈ r.columns := by
  simp [hasColumn, columns, or_assoc]

theorem nodup_columns (r : Resource) : r.columns.Nodup := Columns.nodup_distinct _

/-- Whether a request may name a column. -/
def isAllowedColumn (r : Resource) (column : String) : Bool :=
  match r.columnList with
  | some names => names.contains column
  | none => r.hasColumn column

/-- The columns that a request may name. -/
def allowedColumns (r : Resource) : List String := r.columns.filter r.isAllowedColumn

theorem mem_allowedColumns {r : Resource} {column : String} :
    column ∈ r.allowedColumns ↔ r.hasColumn column = true ∧ r.isAllowedColumn column = true := by
  simp [allowedColumns, hasColumn_iff]

/-- The columns that are always read: id columns, then keys of other resources. -/
def defaultColumns (r : Resource) : List String := Columns.addAll r.idColumns r.foreignKeys

theorem mem_defaultColumns {r : Resource} {column : String} :
    column ∈ r.defaultColumns ↔ column ∈ r.idColumns ∨ column ∈ r.foreignKeys :=
  Columns.mem_addAll

/-- A relation that a request may expand. -/
def allowedRelation? (r : Resource) (name : String) : Option Relation :=
  match r.relationList with
  | some names => if names.contains name then r.relations.get? name else none
  | none => r.relations.get? name

end Resource

end RequestQuery
