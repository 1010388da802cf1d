import RequestQuery.Json.Basic

/-!
# Tables of a TOML document

A document defines tables by headers, by dotted keys and by inline tables, and each may be defined
once. While a document is read, a table therefore remembers how it came about, which decides what
may still be added to it.

* `Entry`, `Origin`: values, tables and arrays of tables, and how a table came about.
* `Entry.assign?`: an entry at a dotted key.
* `Entry.openTable?`, `Entry.openArray?`: what a header does.
* `Entry.toJson`: the document as a JSON value.
-/

namespace RequestQuery.Toml

/-- How a table came about. -/
inductive Origin where
  /-- By a header of its own. -/
  | header
  /-- By the header of a table inside it. -/
  | implied
  /-- By a dotted key. -/
  | dotted
  deriving DecidableEq

/-- What stands at a key. -/
inductive Entry where
  /-- A value, which cannot be added to. -/
  | value (j : Json)
  | table (origin : Origin) (entries : List (String × Entry))
  /-- The tables of an array, latest first. -/
  | tables (items : List (List (String × Entry)))

namespace Entry

/-- The entries with a value assigned to a dotted key. Only tables that dotted keys made can be
added to in this way, not those that a header opened or implied. -/
def assign? (j : Json) : (path : List String) → List (String × Entry) →
    Option (List (String × Entry))
  | [], _ => none
  | [key], entries =>
    match Entries.get? key entries with
    | some _ => none
    | none => some (Entries.put key (value j) entries)
  | key :: rest, entries =>
    match Entries.get? key entries with
    | none => do return Entries.put key (table .dotted (← assign? j rest [])) entries
    | some (table .dotted inner) => do
      return Entries.put key (table .dotted (← assign? j rest inner)) entries
    | some _ => none

/-- Entries with the table at the end of a header's path changed by `fill`. -/
def openTable? (fill : List (String × Entry) → Option (List (String × Entry))) :
    (path : List String) → List (String × Entry) → Option (List (String × Entry))
  | [], _ => none
  | [key], entries =>
    match Entries.get? key entries with
    | none => do return Entries.put key (table .header (← fill [])) entries
    | some (table .implied inner) => do
      return Entries.put key (table .header (← fill inner)) entries
    | some _ => none
  | key :: rest, entries =>
    match Entries.get? key entries with
    | none => do return Entries.put key (table .implied (← openTable? fill rest [])) entries
    | some (table origin inner) => do
      return Entries.put key (table origin (← openTable? fill rest inner)) entries
    | some (tables (last :: earlier)) => do
      return Entries.put key (tables ((← openTable? fill rest last) :: earlier)) entries
    | some _ => none

/-- Entries with one more table, changed by `fill`, in the array at the end of a header's path. -/
def openArray? (fill : List (String × Entry) → Option (List (String × Entry))) :
    (path : List String) → List (String × Entry) → Option (List (String × Entry))
  | [], _ => none
  | [key], entries =>
    match Entries.get? key entries with
    | none => do return Entries.put key (tables [← fill []]) entries
    | some (tables items) => do return Entries.put key (tables ((← fill []) :: items)) entries
    | some _ => none
  | key :: rest, entries =>
    match Entries.get? key entries with
    | none => do return Entries.put key (table .implied (← openArray? fill rest [])) entries
    | some (table origin inner) => do
      return Entries.put key (table origin (← openArray? fill rest inner)) entries
    | some (tables (last :: earlier)) => do
      return Entries.put key (tables ((← openArray? fill rest last) :: earlier)) entries
    | some _ => none

mutual

/-- An entry as a JSON value. -/
def toJson : Entry → Json
  | value j => j
  | table _ entries => .object (fields entries)
  | tables items => .array (objects items).reverse

/-- Entries as the fields of an object. -/
def fields : List (String × Entry) → List (String × Json)
  | [] => []
  | (key, entry) :: rest => (key, entry.toJson) :: fields rest

/-- Tables as objects. -/
def objects : List (List (String × Entry)) → List Json
  | [] => []
  | item :: rest => .object (fields item) :: objects rest

end

/-- Entries with a value assigned to each of several dotted keys. -/
def assignAll? (values : List (List String × Json)) (entries : List (String × Entry)) :
    Option (List (String × Entry)) :=
  values.foldlM (fun entries (path, j) => assign? j path entries) entries

end Entry

end RequestQuery.Toml
