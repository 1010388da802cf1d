import RequestQuery.Filter.Basic
import RequestQuery.QueryOption

/-!
# Rejections

Why a request is turned down. Compilation stops at the first violation and gives nothing else, and
every rejection is the client's doing. A rejection names the option it is about and, but for limits,
the value that offends.

* `Rejection.code`, `param`, `value?`, `message`: what the client is told.
-/

namespace RequestQuery

/-- What is wrong with the value of an option. -/
inductive Refusal where
  | tooLarge
  | objectExpected
  | scalarExpected
  | disabled
  | unknownParameter
  | repeated
  | blank
  | integerExpected
  | atLeast (least : Int)
  | between (least greatest : Int)
  | outOfRange
  | booleanExpected
  | columnMissing
  | oneOf (allowed : List String)
  | emptySegment
  | idCount (expected : Nat)
  | scalarIdExpected
  | noIdColumns
  deriving DecidableEq

/-- The text of a refusal. -/
def Refusal.message : Refusal → String
  | .tooLarge => "decodes to more than 64KB"
  | .objectExpected => "expected an object"
  | .scalarExpected => "expected a string, number or boolean"
  | .disabled => "parameter is disabled for this resource"
  | .unknownParameter => "unknown parameter"
  | .repeated => "must not be repeated"
  | .blank => "must not be empty"
  | .integerExpected => "must be an integer"
  | .atLeast least => s!"must be at least {least}"
  | .between least greatest => s!"must be between {least} and {greatest}"
  | .outOfRange => "out of range"
  | .booleanExpected => "must be true or false"
  | .columnMissing => "missing column name"
  | .oneOf allowed => "must be one of: " ++ ", ".intercalate allowed
  | .emptySegment => "empty path segment"
  | .idCount expected => s!"expected {expected} id value(s)"
  | .scalarIdExpected => "id values must be scalars"
  | .noIdColumns => "resource has no id columns"

/-- A bound that a request can go over. -/
inductive Bound where
  /-- The segments of one expanded path. -/
  | recursionDepth
  /-- The expanded paths. -/
  | relations
  /-- The selected columns. -/
  | columns
  /-- The nesting of parentheses and negations in a filter. -/
  | filterDepth
  /-- The octets of a filter. -/
  | filterLength
  deriving DecidableEq

namespace Bound

/-- The words for a bound. -/
def words : Bound → String
  | .recursionDepth => "expansion depth"
  | .relations => "relation count"
  | .columns => "column count"
  | .filterDepth => "filter nesting depth"
  | .filterLength => "filter length"

/-- The name of a bound in an error. -/
def name : Bound → String
  | .recursionDepth => "recursion_depth"
  | .relations => "relations"
  | .columns => "columns"
  | .filterDepth => "filter_depth"
  | .filterLength => "filter_length"

/-- The option that a bound is on. -/
def option : Bound → QueryOption
  | .recursionDepth | .relations => .expand
  | .columns => .select
  | .filterDepth | .filterLength => .filter

end Bound

/-- Why a request is turned down. -/
inductive Rejection where
  /-- The value of a parameter does not fit the contract. -/
  | invalid (param value : String) (reason : Refusal)
  /-- A path of resources and relations does not resolve. -/
  | notFound (param path : String)
  /-- A column may not be named on a resource. -/
  | unknownColumn (option : QueryOption) (column resource : String)
  /-- A segment of an expanded path is no relation that may be expanded. -/
  | unknownRelation (path segment : String)
  /-- A selected column belongs to a relation that is not expanded. -/
  | unexpandedRelation (entry relation : String)
  /-- A word in the place of an operator is none, or does not apply to null. -/
  | unsupportedOperator (filter operator : String)
  /-- A function is unknown or has other arguments than it takes. -/
  | unsupportedCall (filter function : String) (flaw : Filter.CallFlaw)
  /-- A filter does not parse; the position counts octets. -/
  | malformedFilter (filter : String) (position : Nat) (reason : Filter.Reason)
  /-- A bound is exceeded. -/
  | limitExceeded (bound : Bound) (max actual : Nat)

namespace Rejection

/-- The kind of a rejection, for programs. -/
def code : Rejection → String
  | .invalid .. => "SchemaValidationError"
  | .notFound .. => "NotFound"
  | .unknownColumn .. => "UnknownAttribute"
  | .unknownRelation .. => "UnknownRelation"
  | .unexpandedRelation .. => "UnexpandedRelation"
  | .unsupportedOperator .. => "UnsupportedFilterOperator"
  | .unsupportedCall .. => "UnsupportedFilterFunction"
  | .malformedFilter .. => "InvalidFilter"
  | .limitExceeded .. => "LimitExceeded"

/-- The parameter that a rejection is about. -/
def param : Rejection → String
  | .invalid param _ _ => param
  | .notFound param _ => param
  | .unknownColumn option _ _ => option.key
  | .unknownRelation .. => QueryOption.expand.key
  | .unexpandedRelation .. => QueryOption.select.key
  | .unsupportedOperator .. => QueryOption.filter.key
  | .unsupportedCall .. => QueryOption.filter.key
  | .malformedFilter .. => QueryOption.filter.key
  | .limitExceeded bound _ _ => bound.option.key

/-- The value that offends, if there is one. -/
def value? : Rejection → Option String
  | .invalid _ value _ => some value
  | .notFound _ path => some path
  | .unknownColumn _ column _ => some column
  | .unknownRelation path _ => some path
  | .unexpandedRelation entry _ => some entry
  | .unsupportedOperator filter _ => some filter
  | .unsupportedCall filter _ _ => some filter
  | .malformedFilter filter _ _ => some filter
  | .limitExceeded .. => none

/-- The status of the answer: every rejection is a client's error. -/
def status (_ : Rejection) : Nat := 400

/-- The text of a rejection. -/
def message (r : Rejection) : String :=
  let param := r.param
  match r with
  | .invalid _ value reason => s!"invalid {param} value {Text.Quoted.text value}: {reason.message}"
  | .notFound _ path => s!"{param}: '{path}' not found"
  | .unknownColumn _ column resource =>
    s!"{param}: unknown attribute '{column}' on '{resource}'"
  | .unknownRelation path segment => s!"{param}: unknown relation '{segment}' in '{path}'"
  | .unexpandedRelation entry relation =>
    s!"{param}: '{entry}' selects from '{relation}', which is not expanded"
  | .unsupportedOperator filter operator =>
    s!"{param}: unsupported operator '{operator}' in {Text.Quoted.text filter}"
  | .unsupportedCall filter function flaw =>
    s!"{param}: unsupported call to '{function}' ({flaw.message}) in {Text.Quoted.text filter}"
  | .malformedFilter filter position reason =>
    s!"{param}: {reason.message} at position {position} in {Text.Quoted.text filter}"
  | .limitExceeded bound max actual =>
    s!"{param}: {bound.words} {actual} exceeds the maximum of {max}"

end Rejection

/-- The fault of a filter, with the filter and the resource it was looked up in. -/
def Filter.Fault.rejection (source resource : String) : Filter.Fault → Rejection
  | .malformed position reason => .malformedFilter source position reason
  | .unsupportedOperator operator => .unsupportedOperator source operator
  | .unsupportedCall function flaw => .unsupportedCall source function flaw
  | .unknownColumn column => .unknownColumn .filter column resource
  | .tooDeep max actual => .limitExceeded .filterDepth max actual

end RequestQuery
