import RequestQuery.Json.Basic
import RequestQuery.Settings.Fault

/-!
# Limits

The bounds on every request.

* `Limits`: the bounds, each with a default.
* `Limits.check`: the bounds can be used together.
* `Limits.ofJson?`, `Limits.toJson`: the bounds as a JSON object; absent ones are the defaults.
-/

namespace RequestQuery

/-- The bounds on every request. -/
structure Limits where
  /-- The page of a request that does not ask for one. -/
  defaultTop : UInt32 := 10
  /-- The largest page. -/
  maxTop : UInt32 := 100
  /-- The most segments of one expanded path. -/
  maxRecursionDepth : Nat := 3
  /-- The most expanded paths. -/
  maxRelations : Nat := 10
  /-- The most selected columns. -/
  maxColumns : Nat := 100
  /-- The deepest nesting of parentheses and negations in a filter. -/
  maxFilterDepth : Nat := 16
  /-- The most octets of a filter. -/
  maxFilterLength : Nat := 2048
  deriving DecidableEq

namespace Limits

/-- The names of the limits. -/
inductive Field where
  | defaultTop
  | maxTop
  | maxRecursionDepth
  | maxRelations
  | maxColumns
  | maxFilterDepth
  | maxFilterLength
  deriving DecidableEq

namespace Field

/-- Every limit. -/
def all : List Field :=
  [.defaultTop, .maxTop, .maxRecursionDepth, .maxRelations, .maxColumns, .maxFilterDepth,
    .maxFilterLength]

/-- The name of a limit in a document. -/
def key : Field → String
  | .defaultTop => "default_top"
  | .maxTop => "max_top"
  | .maxRecursionDepth => "max_recursion_depth"
  | .maxRelations => "max_relations"
  | .maxColumns => "max_columns"
  | .maxFilterDepth => "max_filter_depth"
  | .maxFilterLength => "max_filter_length"

/-- The limit with a name. -/
def ofKey? (key : String) : Option Field := all.find? fun f => f.key == key

@[simp] theorem ofKey?_key (f : Field) : ofKey? f.key = some f := by cases f <;> decide

/-- The greatest value of a limit: pages are counted in 32 bits, the rest in 64. -/
def greatest : Field → Nat
  | .defaultTop | .maxTop => UInt32.size - 1
  | _ => UInt64.size - 1

end Field

/-- The value of a limit. -/
def get (l : Limits) : Field → Nat
  | .defaultTop => l.defaultTop.toNat
  | .maxTop => l.maxTop.toNat
  | .maxRecursionDepth => l.maxRecursionDepth
  | .maxRelations => l.maxRelations
  | .maxColumns => l.maxColumns
  | .maxFilterDepth => l.maxFilterDepth
  | .maxFilterLength => l.maxFilterLength

/-- Set a limit. -/
def set (l : Limits) (f : Field) (n : Nat) : Limits :=
  match f with
  | .defaultTop => { l with defaultTop := UInt32.ofNat n }
  | .maxTop => { l with maxTop := UInt32.ofNat n }
  | .maxRecursionDepth => { l with maxRecursionDepth := n }
  | .maxRelations => { l with maxRelations := n }
  | .maxColumns => { l with maxColumns := n }
  | .maxFilterDepth => { l with maxFilterDepth := n }
  | .maxFilterLength => { l with maxFilterLength := n }

/-- The first reason why the limits cannot be used together. -/
def check (l : Limits) : Except SettingsFault Unit :=
  if l.maxTop = 0 then .error (.zeroLimit Field.maxTop.key)
  else if l.defaultTop = 0 ∨ l.maxTop < l.defaultTop then .error (.defaultTop l.maxTop)
  else if l.maxFilterDepth = 0 then .error (.zeroLimit Field.maxFilterDepth.key)
  else .ok ()

/-- The limits of a JSON object that names some of them; the others are the defaults. -/
def ofJson? : Json → Option Limits
  | .object fields =>
    fields.foldlM
      (fun limits (key, value) => do
        let field ← Field.ofKey? key
        match value with
        | .int n => if 0 ≤ n ∧ n ≤ field.greatest then some (limits.set field n.toNat) else none
        | _ => none)
      {}
  | _ => none

/-- The limits as a JSON object. -/
def toJson (l : Limits) : Json := .ofFields (Field.all.map fun f => (f.key, .ofNat (l.get f)))

end Limits

end RequestQuery
