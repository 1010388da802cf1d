import RequestQuery.Decimal.Whole
import RequestQuery.Json.Basic

/-!
# Bound values

The values that a statement's placeholders stand for, and their conversion from and to JSON.

* `Value.ofJson?`: the value of a JSON document; an object has none, and an integer beyond 64 bits
  becomes the nearest binary64 number.
* `Value.toJson`: the JSON form of a value.
-/

namespace RequestQuery

/-- A bound value. -/
inductive Value where
  | null
  | bool (b : Bool)
  | int (n : Int64)
  | float (x : Binary64)
  | text (s : String)
  /-- The elements of a list to look a column up in. -/
  | list (items : List Value)

namespace Value

instance : Inhabited Value := ⟨.null⟩

/-- Whether this is the null value. -/
def isNull : Value → Bool
  | .null => true
  | _ => false

/-- Whether this is a list. -/
def isList : Value → Bool
  | .list _ => true
  | _ => false

mutual

/-- The value of a JSON document, unless an object occurs in it. -/
def ofJson? : Json → Option Value
  | .null => some .null
  | .bool b => some (.bool b)
  | .int n =>
    match Decimal.toInt64? n with
    | some i => some (.int i)
    | none => some (.float (Binary64.ofInt n))
  | .float x _ => some (.float x)
  | .text s => some (.text s)
  | .array items => (ofJsons? items).map .list
  | .object _ => none

/-- The values of JSON documents, unless an object occurs in one. -/
def ofJsons? : List Json → Option (List Value)
  | [] => some []
  | item :: rest =>
    match ofJson? item, ofJsons? rest with
    | some v, some vs => some (v :: vs)
    | _, _ => none

end

mutual

/-- The JSON form of a value. -/
def toJson : Value → Json
  | .null => .null
  | .bool b => .bool b
  | .int n => .int n.toInt
  | .float x => .ofBinary64 x
  | .text s => .text s
  | .list items => .array (toJsons items)

/-- The JSON forms of values. -/
def toJsons : List Value → List Json
  | [] => []
  | item :: rest => item.toJson :: toJsons rest

end

end Value

end RequestQuery
