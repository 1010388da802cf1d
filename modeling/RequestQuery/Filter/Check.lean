import RequestQuery.Filter.Parser
import RequestQuery.Predicate
import RequestQuery.Schema.Resource
import RequestQuery.Settings.Limits
import RequestQuery.Rejection

/-!
# Checking filters

A filter is looked up in a resource: its columns must be allowed, its comparisons must apply to
their literals, and its calls must be of known functions with a column and a text.

* `Filter.check`: the predicate of a filter, or the leftmost fault.
* `Filter.read`, `Filter.compile`: the filter and the predicate of a text within limits.
-/

namespace RequestQuery.Filter

/-- A column that a request may name. -/
def checkColumn (r : Resource) (column : String) : Except Fault Unit :=
  if r.isAllowedColumn column then .ok () else .error (.unknownColumn column)

/-- A comparison; equality with null is the null test, and no other comparison takes null. -/
def checkCompare (r : Resource) (column : String) (op : Comparison) (literal : Literal) :
    Except Fault Predicate := do
  checkColumn r column
  match op, literal with
  | .eq, .null => return .isNull column false
  | .ne, .null => return .isNull column true
  | op, .null => .error (.unsupportedOperator op.word)
  | op, literal => return .compare column op literal.value

/-- A function call. -/
def checkCall (r : Resource) (function : String) (args : List Argument) :
    Except Fault Predicate :=
  match Anchor.ofFunction? function with
  | none => .error (.unsupportedCall function .unknownFunction)
  | some anchor =>
    match args with
    | [.column column, .literal (.text text)] => do
      checkColumn r column
      return .like column anchor text
    | _ => .error (.unsupportedCall function .badArguments)

/-- The predicate of a filter on a resource. -/
def check (r : Resource) : Filter → Except Fault Predicate
  | .compare column op literal => checkCompare r column op literal
  | .call function args => checkCall r function args
  | .and left right => do return .and (← check r left) (← check r right)
  | .or left right => do return .or (← check r left) (← check r right)
  | .not inner => do return .not (← check r inner)

/-- A filter text within the limit on its length. -/
def checkLength (source : String) (limits : Limits) : Except Rejection Unit :=
  let width := Utf8.width source
  if limits.maxFilterLength < width then
    .error (.limitExceeded .filterLength limits.maxFilterLength width)
  else .ok ()

/-- The filter that a text writes, within limits. -/
def read (source : String) (limits : Limits) : Except Rejection Filter := do
  checkLength source limits
  (parse limits.maxFilterDepth source).mapError (·.rejection source "")

/-- The predicate of a filter text on a resource, within limits. -/
def compile (source : String) (r : Resource) (limits : Limits) : Except Rejection Predicate := do
  checkLength source limits
  (parse limits.maxFilterDepth source >>= check r).mapError (·.rejection source r.name)

end RequestQuery.Filter
