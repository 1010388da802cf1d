/-!
# Query options

The options that a request may carry at its top level, each under a key that begins with a dollar
sign.
-/

namespace RequestQuery

/-- A query option. -/
inductive QueryOption where
  | filter
  | sort
  | skip
  | top
  | expand
  | select
  | count
  deriving DecidableEq

namespace QueryOption

/-- Every option, in the order in which sets of them are shown. -/
def all : List QueryOption := [.filter, .sort, .skip, .top, .expand, .select, .count]

/-- The key of an option in a request. -/
def key : QueryOption → String
  | .filter => "$filter"
  | .sort => "$sort"
  | .skip => "$skip"
  | .top => "$top"
  | .expand => "$expand"
  | .select => "$select"
  | .count => "$count"

/-- The option with a key. -/
def ofKey? (key : String) : Option QueryOption := all.find? fun o => o.key == key

theorem mem_all (o : QueryOption) : o ∈ all := by cases o <;> decide

theorem key_of_ofKey? {key : String} {o : QueryOption} (h : ofKey? key = some o) : o.key = key := by
  simpa using List.find?_some h

@[simp] theorem ofKey?_key (o : QueryOption) : ofKey? o.key = some o := by cases o <;> decide

/-- Options are told by their keys. -/
theorem key_injective {o o' : QueryOption} (h : o.key = o'.key) : o = o' := by
  have hread := congrArg ofKey? h
  rwa [ofKey?_key, ofKey?_key, Option.some.injEq] at hread

end QueryOption

end RequestQuery
