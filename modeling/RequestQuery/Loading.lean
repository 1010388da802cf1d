import RequestQuery.Plan
import RequestQuery.Json.Text

/-!
# Running plans

A plan is run on a database: the rows of the root are read, then for every expanded relation the
rows that join to them, and last the count. Rows of a relation are read with one statement for all
rows above, and attached to each of them under the relation's name.

* `Database`: answers statements; `Session`: its state and the statements asked so far.
* `ownerKeys`, `joinKey?`: the values to look up, and the text by which rows are matched.
* `Groups.ofRows`: rows in groups by that text; `matching_ofRows`: those that match a row above.
* `attach`: the rows above with the matching rows attached.
* `Branch.load`: the rows above a branch with everything below it attached.
* `Plan.run`: the result of a plan, as an `Envelope`.
-/

namespace RequestQuery

/-- A row by its columns. -/
abbrev Row := List (String × Json)

/-- A database with states `σ` and failures `ε`: what it answers to a statement. -/
structure Database (σ ε : Type) where
  answer : Sql.Statement → σ → Except ε (List Row) × σ

/-- The state of a database and the statements it was asked, in order. -/
structure Session (σ : Type) where
  state : σ
  asked : List Sql.Statement

/-- Why a plan gives no result. -/
inductive LoadFault (ε : Type) where
  /-- A name is no identifier. -/
  | badName (name : Sql.BadName)
  /-- The database failed. -/
  | database (failure : ε)
  /-- The count is not a natural number of 64 bits; a missing one is nothing. -/
  | badCount (found : Option Json)

/-- The text of the fault of a count. -/
def badCountMessage (found : Option Json) : String :=
  let shown := (found.map Json.toText).getD "no count column"
  s!"count query returned {shown}, expected a non-negative integer"

/-- A computation that asks a database. The statements asked are kept when it fails. -/
abbrev Load (σ ε α : Type) : Type := ExceptT (LoadFault ε) (StateM (Session σ)) α

namespace Load

variable {σ ε : Type}

/-- Go on with a name, or fail. -/
def ofNames {α : Type} : Except Sql.BadName α → Load σ ε α
  | .ok a => pure a
  | .error name => throw (.badName name)

/-- Ask a statement. -/
def ask (db : Database σ ε) (statement : Sql.Statement) : Load σ ε (List Row) := do
  let session ← get
  let (answer, state) := db.answer statement session.state
  set (Session.mk state (session.asked ++ [statement]))
  match answer with
  | .ok rows => return rows
  | .error failure => throw (.database failure)

end Load

/-! ## Matching rows -/

/-- The text by which a value is matched; null, arrays and objects match nothing. -/
def joinKey? : Json → Option String
  | .null | .array _ | .object _ => none
  | scalar => some scalar.toText

/-- The text by which a row is matched on a column. -/
def rowKey? (column : String) (row : Row) : Option String :=
  (Entries.get? column row).bind joinKey?

/-- The values to look up for the values of a column, each once, in the order of first
appearance. -/
def keysOf (seen : List String) : List Json → List Value
  | [] => []
  | json :: rest =>
    match joinKey? json with
    | none => keysOf seen rest
    | some key =>
      if key ∈ seen then keysOf seen rest
      else
        match Value.ofJson? json with
        | some value => value :: keysOf (key :: seen) rest
        | none => keysOf (key :: seen) rest

/-- The values to look up for a column of rows. -/
def ownerKeys (column : String) (rows : List Row) : List Value :=
  keysOf [] (rows.filterMap (Entries.get? column))

/-- Rows in groups, by the text by which they are matched. -/
abbrev Groups := Dict (List Row)

namespace Groups

/-- The rows of the group of a text. -/
def rowsOf (groups : Groups) (key : String) : List Row := (groups.get? key).getD []

/-- A row put at the end of its group, if it matches anything. -/
def push (column : String) (groups : Groups) (row : Row) : Groups :=
  match rowKey? column row with
  | none => groups
  | some key => groups.insert key (groups.rowsOf key ++ [row])

/-- The groups of rows by a column. -/
def ofRows (column : String) (rows : List Row) : Groups := rows.foldl (push column) Dict.empty

theorem rowsOf_push (column : String) (groups : Groups) (row : Row) (key : String) :
    (push column groups row).rowsOf key =
      groups.rowsOf key ++ if rowKey? column row = some key then [row] else [] := by
  unfold push
  cases rowKey? column row with
  | none => simp
  | some other =>
    by_cases h : other = key
    · subst h
      simp [rowsOf]
    · simp [rowsOf, Dict.get?_insert_of_ne groups (Ne.symm h), h]

theorem rowsOf_foldl_push (column : String) (rows : List Row) (groups : Groups) (key : String) :
    (rows.foldl (push column) groups).rowsOf key =
      groups.rowsOf key ++ rows.filter fun row => rowKey? column row = some key := by
  induction rows generalizing groups with
  | nil => simp
  | cons row rest ih =>
    rw [List.foldl_cons, ih, rowsOf_push, List.append_assoc, List.filter_cons]
    by_cases h : rowKey? column row = some key <;> simp [h]

/-- A group has the rows of its text, in their order. -/
theorem rowsOf_ofRows (column : String) (rows : List Row) (key : String) :
    (ofRows column rows).rowsOf key = rows.filter fun row => rowKey? column row = some key :=
  rowsOf_foldl_push column rows Dict.empty key

end Groups

/-- The group that a row matches on the owner column. -/
def matching (relation : Relation) (groups : Groups) (parent : Row) : List Row :=
  match rowKey? relation.ownerColumn parent with
  | none => []
  | some key => groups.rowsOf key

/-- The rows that match a row are those whose related column matches its owner column. -/
theorem matching_ofRows (relation : Relation) (rows : List Row) (parent : Row) :
    matching relation (.ofRows relation.relatedColumn rows) parent =
      match rowKey? relation.ownerColumn parent with
      | none => []
      | some key => rows.filter fun row => rowKey? relation.relatedColumn row = some key := by
  unfold matching
  simp only [Groups.rowsOf_ofRows]

/-- What is attached for the matching rows: all of them, or the first or null. -/
def attachment (kind : Relation.Kind) (rows : List Row) : Json :=
  if kind.isMany then .array (rows.map .object)
  else
    match rows with
    | [] => .null
    | row :: _ => .object row

/-- A row above with the group that it matches attached under the relation's name. -/
def attachTo (level : Level) (groups : Groups) (parent : Row) : Row :=
  Entries.put level.name
    (attachment level.relation.kind (matching level.relation groups parent)) parent

/-- The rows above with the matching rows attached. -/
def attach (level : Level) (rows parents : List Row) : List Row :=
  parents.map (attachTo level (.ofRows level.relation.relatedColumn rows))

/-! ## Loading branches -/

/-- The statement that reads the rows of a branch with the given values in the related column. -/
def Branch.statement (d : Sql.Dialect) (b : Branch) (keys : List Value) :
    Except Sql.BadName Sql.Statement := do
  let table ← Sql.Query.ofTable d b.level.table
  let columns ← table.fields b.columns
  let filtered ← columns.filter b.level.relation.relatedColumn .member (.list keys)
  let sorted ← b.level.primaryKey.foldlM (fun q column => q.sort column .ascending) filtered
  return sorted.select

variable {σ ε : Type}

/-- The rows that a branch reads for the rows above it; without a value to look up nothing is
asked. -/
def Branch.rows (db : Database σ ε) (d : Sql.Dialect) (b : Branch) (parents : List Row) :
    Load σ ε (List Row) :=
  match ownerKeys b.level.relation.ownerColumn parents with
  | [] => pure []
  | keys => do Load.ask db (← Load.ofNames (b.statement d keys))

mutual

/-- The rows above a branch with its rows attached, and theirs to them. -/
def Branch.load (db : Database σ ε) (d : Sql.Dialect) : Branch → List Row → Load σ ε (List Row)
  | .mk level branches, parents => do
    let found ← (Branch.mk level branches).rows db d parents
    let complete ← Branch.loadAll db d branches found
    return attach level complete parents

/-- The rows above branches with the rows of each attached. -/
def Branch.loadAll (db : Database σ ε) (d : Sql.Dialect) :
    List Branch → List Row → Load σ ε (List Row)
  | [], parents => pure parents
  | b :: rest, parents => do Branch.loadAll db d rest (← b.load db d parents)

end

/-! ## Results -/

/-- The result of a plan. -/
inductive Envelope where
  /-- A page of rows, with the number of all rows when it was asked for. -/
  | collection (rows : List Row) (count : Option UInt64)
  /-- One row, with the count among its fields, or null. -/
  | entity (row : Json)

namespace Envelope

/-- The rows of a result. -/
def rows : Envelope → List Row
  | collection rows _ => rows
  | entity (.object row) => [row]
  | entity _ => []

/-- A number as JSON. -/
def countJson (count : UInt64) : Json := .ofNat count.toNat

/-- The result of a plan for a single row. -/
def ofRow : Option Row → Option UInt64 → Envelope
  | none, _ => entity .null
  | some row, none => entity (.object row)
  | some row, some count => entity (.object (Entries.put "count" (countJson count) row))

/-- A result as a JSON document. -/
def toJson : Envelope → Json
  | collection rows count =>
    let page := ("value", Json.array (rows.map .object))
    .ofFields (page :: count.toList.map fun n => ("count", countJson n))
  | entity row => row

end Envelope

/-! ## Counting -/

/-- A natural number of 64 bits, if it is one. -/
def toUInt64? (n : Int) : Option UInt64 :=
  if 0 ≤ n ∧ n < UInt64.size then some (UInt64.ofNat n.toNat) else none

/-- The number that digits write after an optional plus sign. -/
def readCount? : List Char → Option Nat
  | '+' :: digits => Decimal.readNat? digits
  | digits => Decimal.readNat? digits

/-- The count in a count column: an integer, or its text with blanks around it. -/
def countValue? : Json → Option UInt64
  | .int n => toUInt64? n
  | .text s => (readCount? (Text.trim s).toList).bind fun n => toUInt64? n
  | _ => none

/-- Ask for the number of rows of a query. -/
def Load.count (db : Database σ ε) (q : Sql.Query) : Load σ ε UInt64 := do
  let rows ← Load.ask db q.count
  let found := rows.head?.bind (Entries.get? "count")
  match found.bind countValue? with
  | some count => return count
  | none => throw (.badCount found)

/-! ## Plans -/

/-- Run a plan on a database. The given query selects from the plan's table and may be restricted
already; the count is restricted in the same way. -/
def Plan.run (db : Database σ ε) (p : Plan) (query : Sql.Query) : Load σ ε Envelope := do
  let applied ← Load.ofNames (p.applyTo query)
  let found ← Load.ask db applied.select
  let rows ← Branch.loadAll db query.dialect ((p.expansion.map (·.branches)).getD []) found
  let count ← if p.wantCount then some <$> Load.count db applied else pure none
  return match p.shape with
    | .collection => .collection rows count
    | .entity => .ofRow rows.head? count

end RequestQuery
