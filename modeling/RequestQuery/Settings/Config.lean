import RequestQuery.Settings.Contract
import RequestQuery.Settings.Limits
import RequestQuery.Toml.Reader

/-!
# Configurations

The limits on every request, the contract of every resource, and contracts of single resources that
take its place.

* `Config.contractFor`: the contract of a resource.
* `Config.check`: the limits and the contracts can be used.
* `Config.ofJson?`, `Config.ofToml`: the configuration of a document.
-/

namespace RequestQuery

/-- Limits and contracts. -/
structure Config where
  limits : Limits := {}
  /-- The contract of the resources that have none of their own. -/
  contract : Contract := {}
  /-- The contracts of single resources. -/
  resources : Dict Contract := Dict.empty

namespace Config

/-- The contract of a resource. -/
def contractFor (c : Config) (resource : String) : Contract :=
  (c.resources.get? resource).getD c.contract

/-- The first reason why the configuration cannot be used: limits first, then the contract of every
resource, then those of single resources by name. -/
def check (c : Config) : Except SettingsFault Unit := do
  c.limits.check
  c.contract.check
  c.resources.values.forM (·.check)

/-- The contracts of an object that holds one at each name. -/
def contracts? (format : DocumentFormat) : Json → Option (Dict Contract)
  | .object fields =>
    fields.foldlM
      (fun contracts (name, value) => do
        return contracts.insert name (← Contract.ofJson? format value))
      Dict.empty
  | _ => none

/-- A configuration with one more field of a document. -/
def withField? (format : DocumentFormat) (c : Config) : String × Json → Option Config
  | ("limits", value) => (Limits.ofJson? value).map fun limits => { c with limits := limits }
  | ("contract", value) => (Contract.ofJson? format value).map fun one => { c with contract := one }
  | ("resources", value) => (contracts? format value).map fun all => { c with resources := all }
  | _ => none

/-- The configuration of an object of a document; absent fields are the defaults. -/
def ofJson? (format : DocumentFormat) : Json → Option Config
  | .object fields => fields.foldlM (withField? format) {}
  | _ => none

/-- The configuration of a TOML document, checked. -/
def ofToml (source : String) : Except SettingsFault Config := do
  let some config := (Toml.read? source).bind (ofJson? .toml) | .error .unreadable
  config.check
  return config

/-- A configuration as a JSON object. -/
def toJson (c : Config) : Json :=
  .ofFields
    [("limits", c.limits.toJson),
      ("contract", c.contract.toJson),
      ("resources", .ofFields (c.resources.entries.map fun (name, one) => (name, one.toJson)))]

end Config

end RequestQuery
