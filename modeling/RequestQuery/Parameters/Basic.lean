import RequestQuery.Json.Text
import RequestQuery.Parameters.Form
import RequestQuery.Rejection
import RequestQuery.Text.Split

/-!
# Parameters

The parameters of a request before they are checked: for every key the values that came with it,
in the order in which they came.

* `Parameters.push`: one more value for a key.
* `Parameters.ofPairs`, `ofQueryText`, `ofJson`: the parameters of a list of pairs, of the text
  after the question mark of an address, and of a JSON object.
-/

namespace RequestQuery

/-- The values of each key of a request. -/
structure Parameters where
  entries : Dict (List String)

namespace Parameters

/-- No parameter. -/
def empty : Parameters := ⟨Dict.empty⟩

/-- The values of a key. -/
def get? (p : Parameters) (key : String) : Option (List String) := p.entries.get? key

/-- One more value for a key. -/
def push (p : Parameters) (key value : String) : Parameters :=
  ⟨p.entries.insert key ((p.get? key).getD [] ++ [value])⟩

@[simp] theorem get?_push_self (p : Parameters) (key value : String) :
    (p.push key value).get? key = some ((p.get? key).getD [] ++ [value]) :=
  Dict.get?_insert_self ..

theorem get?_push_of_ne (p : Parameters) {key other : String} (h : other ≠ key) (value : String) :
    (p.push key value).get? other = p.get? other :=
  Dict.get?_insert_of_ne _ h _

/-- One more value for each key of a list of pairs. -/
def pushAll (p : Parameters) (pairs : List (String × String)) : Parameters :=
  pairs.foldl (fun p (key, value) => p.push key value) p

/-- The parameters of a list of pairs. -/
def ofPairs (pairs : List (String × String)) : Parameters := empty.pushAll pairs

/-- The keys with their values, in the order of the keys. -/
def toList (p : Parameters) : List (String × List String) := p.entries.entries

/-- The number of keys. -/
def size (p : Parameters) : Nat := p.entries.size

/-! ## Query texts -/

/-- A component is too long; the beginning of it is shown. -/
def tooLarge (param component : String) : Rejection :=
  .invalid param (String.ofList (component.toList.take 64)) .tooLarge

/-- The key and the value that a part of a query text writes; without an equals sign the value is
empty. -/
def pair (part : String) : Except Rejection (String × String) := do
  let (key, value) := (Text.splitFirst? '=' part).getD (part, "")
  let some decodedKey := Form.decode? key | .error (tooLarge "query" key)
  let some decodedValue := Form.decode? value | .error (tooLarge decodedKey value)
  return (decodedKey, decodedValue)

/-- The parameters of a query text. -/
def ofQueryText (query : String) : Except Rejection Parameters := do
  let parts := (Text.split '&' query).filter (· ≠ "")
  return ofPairs (← parts.mapM pair)

/-! ## JSON objects -/

/-- The text of a scalar that is the value of a key. -/
def scalarText (key : String) : Json → Except Rejection String
  | .text s => .ok s
  | .bool b => .ok (Json.bool b).toText
  | .int n => .ok (Json.int n).toText
  | .float x h => .ok (Json.float x h).toText
  | other => .error (.invalid key other.toText .scalarExpected)

/-- The values of a key in an object: those of an array, none for null, else one. -/
def fieldValues (key : String) : Json → Except Rejection (List String)
  | .null => .ok []
  | .array items => items.mapM (scalarText key)
  | other => do return [← scalarText key other]

/-- The parameters of a JSON object. -/
def ofJson : Json → Except Rejection Parameters
  | .object fields =>
    fields.foldlM
      (fun p (key, value) => do
        return p.pushAll ((← fieldValues key value).map fun text => (key, text)))
      empty
  | other => .error (.invalid "query" other.toText .objectExpected)

end Parameters

end RequestQuery
