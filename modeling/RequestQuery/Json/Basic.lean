import RequestQuery.Binary64.Basic
import RequestQuery.Dict

/-!
# JSON values

Rows of a database, settings and the answers of the library are JSON values. Integers and other
numbers are told apart, so `5` and `5.0` differ; a number that is not an integer is finite, since
JSON writes no other. The fields of an object stand in key order, which `Json.ofFields` and
`Entries.put` keep.
-/

namespace RequestQuery

/-- A JSON value. -/
inductive Json where
  | null
  | bool (b : Bool)
  /-- A number written without a point or an exponent. -/
  | int (n : Int)
  /-- Any other number. -/
  | float (x : Binary64) (finite : x.isFinite = true)
  | text (s : String)
  | array (items : List Json)
  | object (fields : List (String × Json))

namespace Json

instance : Inhabited Json := ⟨.null⟩

/-- The object with the given fields, put in key order. -/
def ofFields (fields : List (String × Json)) : Json := .object (Dict.ofList fields).entries

/-- A binary64 number, or null for one that is not finite. -/
def ofBinary64 (x : Binary64) : Json := if h : x.isFinite = true then .float x h else .null

/-- The array of the given texts. -/
def ofTexts (texts : List String) : Json := .array (texts.map .text)

/-- An optional value, null when absent. -/
def ofOption {α : Type} (f : α → Json) : Option α → Json
  | none => .null
  | some a => f a

/-- A natural number. -/
def ofNat (n : Nat) : Json := .int n

/-- The value of a field of an object. -/
def field? (key : String) : Json → Option Json
  | .object fields => Entries.get? key fields
  | _ => none

end Json

end RequestQuery
