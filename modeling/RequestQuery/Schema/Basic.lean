import RequestQuery.Rejection
import RequestQuery.Schema.Resource
import RequestQuery.Sql.Identifier
import RequestQuery.Text.Split

/-!
# Schemas

A schema is a set of resources whose names, columns and relations fit together. Relations name
their targets, so resources may refer to themselves and to each other.

* `Schema.build`: the schema of a list of resources, or the first fault. Faults are looked for in
  the order of the resources' names, the related columns after everything else.
* `Schema.resolve`: the resource at the end of a path of relations.
-/

namespace RequestQuery

/-- Why resources do not make a schema. -/
inductive SchemaFault where
  /-- Two resources share a name. -/
  | duplicateResource (resource : String)
  | missingIdColumns (resource : String)
  /-- The name of a table or a column is no identifier. -/
  | invalidIdentifier (resource name : String) (flaw : Sql.Identifier.Flaw)
  /-- A relation points at a resource that there is not. -/
  | unknownTarget (resource relation target : String)
  /-- A relation joins on a column that there is not. -/
  | unknownJoinColumn (resource relation column : String)
  /-- A restriction names a column that there is not. -/
  | unknownColumn (resource column : String)
  /-- A restriction names a relation that there is not. -/
  | unknownRelation (resource relation : String)
  deriving DecidableEq

/-- The text of a fault. -/
def SchemaFault.message : SchemaFault → String
  | .duplicateResource resource => s!"resource '{resource}' is declared more than once"
  | .missingIdColumns resource => s!"resource '{resource}' has no id columns"
  | .invalidIdentifier resource name flaw =>
    s!"resource '{resource}': invalid identifier '{name}': {flaw.message}"
  | .unknownTarget resource relation target =>
    s!"relation '{resource}.{relation}' targets unknown resource '{target}'"
  | .unknownJoinColumn resource relation column =>
    s!"relation '{resource}.{relation}' joins on undeclared column '{column}'"
  | .unknownColumn resource column =>
    s!"resource '{resource}' whitelists undeclared column '{column}'"
  | .unknownRelation resource relation =>
    s!"resource '{resource}' whitelists undeclared relation '{relation}'"

/-- Resources by name, which fit together if `Schema.build` made them. -/
structure Schema where
  resources : Dict Resource

namespace Resource

/-- A name of the resource is an identifier. -/
def checkName (r : Resource) (name : String) : Except SchemaFault Unit :=
  match Sql.Identifier.flaw? name with
  | some flaw => .error (.invalidIdentifier r.name name flaw)
  | none => .ok ()

/-- The names of a restriction, if there is one, are all declared. -/
def checkList (names : Option NameSet) (declared : String → Bool) (fault : String → SchemaFault) :
    Except SchemaFault Unit :=
  match (names.map NameSet.toList).getD [] |>.find? (!declared ·) with
  | some name => .error (fault name)
  | none => .ok ()

/-- A relation has a target among the given names and joins on a column of the resource. -/
def checkRelation (r : Resource) (isResource : String → Bool) (name : String)
    (relation : Relation) : Except SchemaFault Unit :=
  if !isResource relation.target then .error (.unknownTarget r.name name relation.target)
  else if !r.hasColumn relation.ownerColumn then
    .error (.unknownJoinColumn r.name name relation.ownerColumn)
  else .ok ()

/-- The first fault of a resource by itself, among resources of the given names. -/
def check (r : Resource) (isResource : String → Bool) : Except SchemaFault Unit := do
  if r.idColumns.isEmpty then .error (.missingIdColumns r.name)
  r.checkName r.table
  r.columns.forM r.checkName
  checkList r.columnList r.hasColumn (.unknownColumn r.name)
  checkList r.relationList r.relations.contains (.unknownRelation r.name)
  r.relations.entries.forM fun (name, relation) => r.checkRelation isResource name relation

end Resource

namespace Schema

/-- The resource with a name. -/
def get? (s : Schema) (name : String) : Option Resource := s.resources.get? name

/-- Resources by name, each name once. -/
def collect (sofar : Dict Resource) : List Resource → Except SchemaFault (Dict Resource)
  | [] => .ok sofar
  | r :: rest =>
    if sofar.contains r.name then .error (.duplicateResource r.name)
    else collect (sofar.insert r.name r) rest

/-- A relation joins on a column of its target. -/
def checkRelated (resources : Dict Resource) (r : Resource) (name : String)
    (relation : Relation) : Except SchemaFault Unit :=
  match resources.get? relation.target with
  | none => .ok ()
  | some target =>
    if target.hasColumn relation.relatedColumn then .ok ()
    else
      .error (.unknownJoinColumn r.name name (relation.target ++ "." ++ relation.relatedColumn))

/-- The schema of a list of resources. -/
def build (resources : List Resource) : Except SchemaFault Schema := do
  let resources ← collect Dict.empty resources
  resources.values.forM fun r => r.check resources.contains
  resources.values.forM fun r =>
    r.relations.entries.forM fun (name, relation) => checkRelated resources r name relation
  return ⟨resources⟩

/-- The resource that a path of relations leads to. -/
def walk (s : Schema) (r : Resource) : List String → Option Resource
  | [] => some r
  | segment :: rest =>
    match r.allowedRelation? segment with
    | none => none
    | some relation =>
      match s.get? relation.target with
      | none => none
      | some target => s.walk target rest

/-- The resource that a path of relations leads to from the resource with a name. The rejection is
about the given parameter and shows the whole path. -/
def resolve (s : Schema) (param root : String) (path : List String) :
    Except Rejection Resource :=
  match (s.get? root).bind fun r => s.walk r path with
  | some r => .ok r
  | none => .error (.notFound param (Text.join "/" (root :: path)))

end Schema

end RequestQuery
