import RequestQuery.Json.Basic
import RequestQuery.QueryOption
import RequestQuery.Settings.Fault

/-!
# Contracts

What the parameters of a request for a resource may be.

* `Contract`: which options are disabled, which other keys are accepted, what may be sorted by.
* `Contract.check`: the keys to be passed through are no options and not empty.
* `Contract.ofJson?`, `Contract.toJson`: a contract as an object of a document.
-/

namespace RequestQuery

/-- The formats of documents that hold settings. -/
inductive DocumentFormat where
  | json
  | toml
  deriving DecidableEq

/-- Whether a value of a document says that there is nothing: null, or an empty array or table in
the format that has no null. -/
def DocumentFormat.isNothing : DocumentFormat → Json → Bool
  | .json, .null => true
  | .toml, .array [] => true
  | .toml, .object [] => true
  | _, _ => false

/-- What the parameters of a request may be. -/
structure Contract where
  /-- Accept and ignore unknown keys. -/
  isOpen : Bool := false
  /-- Keys to accept and ignore even when unknown ones are refused. -/
  passThrough : NameSet := Dict.empty
  /-- The options that are refused, in their order and without repeats. -/
  disabled : List QueryOption := []
  /-- The only columns to sort by, if they are restricted. -/
  sortable : Option NameSet := none

namespace Contract

/-- Accept unknown keys. -/
def openUp (c : Contract) : Contract := { c with isOpen := true }

/-- Accept and ignore these keys too. -/
def pass (c : Contract) (keys : List String) : Contract :=
  { c with passThrough := c.passThrough.insertAll keys }

/-- Refuse an option. -/
def disable (c : Contract) (o : QueryOption) : Contract :=
  { c with disabled := QueryOption.all.filter fun p => p = o || p ∈ c.disabled }

/-- Restrict sorting to these columns. -/
def sortableBy (c : Contract) (columns : List String) : Contract :=
  { c with sortable := some (NameSet.ofList columns) }

/-- Whether an option may be used. -/
def allows (c : Contract) (o : QueryOption) : Bool := o ∉ c.disabled

/-- A disabled option stays refused, and the others are left alone. -/
theorem allows_disable (c : Contract) (o p : QueryOption) :
    (c.disable o).allows p = (decide (p ≠ o) && c.allows p) := by
  by_cases h : p = o <;> simp [allows, disable, QueryOption.mem_all, h]

/-- The first reason why the contract cannot be used: an option among the keys to be passed
through, or else an empty key. -/
def check (c : Contract) : Except SettingsFault Unit :=
  let keys := c.passThrough.toList
  match keys.find? fun key => (QueryOption.ofKey? key).isSome with
  | some key => .error (.shadowedOption key)
  | none => if keys.contains "" then .error .emptyKey else .ok ()

/-! ## Documents -/

/-- The texts of an array of texts. -/
def texts? : Json → Option (List String)
  | .array items => items.mapM fun | .text s => some s | _ => none
  | _ => none

/-- An option in a document: its key, or an object that holds nothing at that key. -/
def option? (format : DocumentFormat) : Json → Option QueryOption
  | .text key => QueryOption.ofKey? key
  | .object [(key, value)] => if format.isNothing value then QueryOption.ofKey? key else none
  | _ => none

/-- The options of an array of options. -/
def options? (format : DocumentFormat) : Json → Option (List QueryOption)
  | .array items => items.mapM (option? format)
  | _ => none

/-- A contract with one more field of a document. -/
def withField? (format : DocumentFormat) (c : Contract) : String × Json → Option Contract
  | ("open", .bool b) => some { c with isOpen := b }
  | ("pass_through", value) => (texts? value).map fun keys => { c with passThrough := .ofList keys }
  | ("disabled", value) => (options? format value).map fun options => options.foldl disable c
  | ("sortable", .null) => some c
  | ("sortable", value) => (texts? value).map c.sortableBy
  | _ => none

/-- The contract of an object of a document; absent fields are those of the closed contract. -/
def ofJson? (format : DocumentFormat) : Json → Option Contract
  | .object fields => fields.foldlM (withField? format) {}
  | _ => none

/-- A contract as a JSON object. -/
def toJson (c : Contract) : Json :=
  .ofFields
    [("open", .bool c.isOpen),
      ("pass_through", .ofTexts c.passThrough.toList),
      ("disabled", .ofTexts (c.disabled.map (·.key))),
      ("sortable", .ofOption (fun names => .ofTexts names.toList) c.sortable)]

end Contract

end RequestQuery
