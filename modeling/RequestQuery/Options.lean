import RequestQuery.Parameters.Basic
import RequestQuery.Settings.Contract
import RequestQuery.Settings.Limits
import RequestQuery.Text.Blank

/-!
# Options of a request

The query options of a request, read and checked against a contract and limits; columns and
relations are looked up later.

* `Options.validate`: the options of a request. First every key must be known and allowed; then the
  filter, the page, the count and the sort keys are read, in this order.
* `readWhole`: a whole number in a range, of any length.
* `entries`: the entries of an option that lists them, with commas or repeated keys.
-/

namespace RequestQuery

/-- A column to sort by. -/
structure SortKey where
  column : String
  direction : Sql.Direction
  deriving DecidableEq

/-- The query options of a request. -/
structure Options where
  filter : Option String
  sort : List SortKey
  skip : Option UInt64
  top : UInt32
  expand : List String
  select : List String
  count : Bool

namespace Options

/-! ## Keys -/

/-- The first key that is not allowed, in key order. -/
def checkKey (contract : Contract) (key : String) (values : List String) : Except Rejection Unit :=
  let refuse (reason : Refusal) := .error (.invalid key (Text.join "," values) reason)
  match QueryOption.ofKey? key with
  | some option => if contract.allows option then .ok () else refuse .disabled
  | none =>
    if contract.isOpen || contract.passThrough.contains key then .ok ()
    else refuse .unknownParameter

/-- The value of an option that may come once. -/
def single? (p : Parameters) (option : QueryOption) : Except Rejection (Option String) :=
  match p.get? option.key with
  | none | some [] => .ok none
  | some [value] => .ok (some value)
  | some values => .error (.invalid option.key (Text.join "," values) .repeated)

/-- The entries of an option that lists them: trimmed, without empty ones. -/
def entries (p : Parameters) (option : QueryOption) : List String :=
  (((p.get? option.key).getD []).flatMap (Text.split ',')).map Text.trim |>.filter (· ≠ "")

/-! ## Values -/

/-- A whole number between two bounds. -/
def readWhole (option : QueryOption) (value : String) (least greatest : Int) :
    Except Rejection Int :=
  match Decimal.readInt64? (Text.trim value).toList with
  | none => .error (.invalid option.key value .integerExpected)
  | some n =>
    if n.toInt < least ∨ greatest < n.toInt then
      .error (.invalid option.key value
        (if greatest = Decimal.maxInt64 then .atLeast least else .between least greatest))
    else .ok n.toInt

/-- A whole number as one of a fixed width. -/
def narrow {α : Type} (option : QueryOption) (value : String) (size : Nat) (ofNat : Nat → α)
    (n : Int) : Except Rejection α :=
  if 0 ≤ n ∧ n < size then .ok (ofNat n.toNat)
  else .error (.invalid option.key value .outOfRange)

/-- A page size up to the largest one. -/
def readTop (maxTop : UInt32) (value : String) : Except Rejection UInt32 := do
  let n ← readWhole .top value 1 maxTop.toNat
  narrow .top value UInt32.size UInt32.ofNat n

/-- A number of rows to leave out. -/
def readSkip (value : String) : Except Rejection UInt64 := do
  let n ← readWhole .skip value 0 Decimal.maxInt64
  narrow .skip value UInt64.size UInt64.ofNat n

/-- A truth value, in any case. -/
def readCount (value : String) : Except Rejection Bool :=
  let trimmed := Text.trim value
  if Ascii.sameLetters trimmed "true" then .ok true
  else if Ascii.sameLetters trimmed "false" then .ok false
  else .error (.invalid QueryOption.count.key value .booleanExpected)

/-- A filter that is not blank. -/
def readFilter (value : String) : Except Rejection String :=
  if Text.trim value = "" then .error (.invalid QueryOption.filter.key value .blank) else .ok value

/-- The direction that a sign before a column gives, and the column. -/
def sortSign (entry : String) : Sql.Direction × String :=
  match entry.toList with
  | '-' :: rest => (.descending, Text.trimStart (String.ofList rest))
  | '+' :: rest => (.ascending, Text.trimStart (String.ofList rest))
  | _ => (.ascending, entry)

/-- A sort key that the contract allows. -/
def readSort (contract : Contract) (entry : String) : Except Rejection SortKey :=
  let (direction, column) := sortSign entry
  if column = "" then .error (.invalid QueryOption.sort.key entry .columnMissing)
  else
    match contract.sortable with
    | some names =>
      if names.contains column then .ok ⟨column, direction⟩
      else .error (.invalid QueryOption.sort.key entry (.oneOf names.toList))
    | none => .ok ⟨column, direction⟩

/-! ## Requests -/

/-- Read a value that may be absent. -/
def readOr {α : Type} (absent : α) (read : String → Except Rejection α) :
    Option String → Except Rejection α
  | none => .ok absent
  | some value => read value

/-- The options of a request. -/
def validate (p : Parameters) (contract : Contract) (limits : Limits) :
    Except Rejection Options := do
  p.toList.forM fun (key, values) => checkKey contract key values
  let filter ← readOr none (fun value => some <$> readFilter value) (← single? p .filter)
  let top ← readOr limits.defaultTop (readTop limits.maxTop) (← single? p .top)
  let skip ← readOr none (fun value => some <$> readSkip value) (← single? p .skip)
  let count ← readOr false readCount (← single? p .count)
  let sort ← (entries p .sort).mapM (readSort contract)
  return {
    filter := filter
    sort := sort
    skip := skip
    top := top
    expand := entries p .expand
    select := entries p .select
    count := count }

end Options

end RequestQuery
