import RequestQuery.Decimal.Whole
import RequestQuery.Json.Basic
import RequestQuery.Text.Ascii

/-!
# Reading JSON

The value that a JSON text writes. A number without a point and an exponent that fits 64 bits, with
or without a sign, is an integer; every other number is the nearest binary64 number, and one beyond
the greatest is refused. Of two fields with one key the later one stays.

* `Json.read?`: the value of a text.
* `readValue?`: the value at the front of a text, and what is left, which is shorter.
-/

namespace RequestQuery.Json

/-- Fewer characters than the given ones. -/
abbrev Left (cs : List Char) : Type := { rest : List Char // rest.length < cs.length }

/-! ## Blanks -/

/-- The characters that may stand between the parts of a value. -/
def isGap (c : Char) : Bool := c == ' ' || c == '\t' || c == '\n' || c == '\r'

/-- What is left after blanks. -/
def skipGaps (cs : List Char) : List Char := cs.dropWhile isGap

theorem length_skipGaps_le (cs : List Char) : (skipGaps cs).length ≤ cs.length :=
  (List.dropWhile_suffix _).length_le

/-- What is left after a sign, with blanks before it. -/
def after? (sign : Char) (cs : List Char) : Option (Left cs) :=
  match h : skipGaps cs with
  | [] => none
  | c :: rest =>
    if c = sign then
      some ⟨rest, by have := length_skipGaps_le cs; rw [h, List.length_cons] at this; omega⟩
    else none

/-- What is left after the given characters. -/
def afterWord? (word cs : List Char) : Option (List Char) :=
  if word.isPrefixOf cs then some (cs.drop word.length) else none

/-! ## Texts -/

/-- The number of four hexadecimal digits at the front. -/
def hex4? : List Char → Option (Nat × List Char)
  | a :: b :: c :: d :: rest => do
    let digits ← [a, b, c, d].mapM Ascii.hexValue?
    return (digits.foldl (fun n digit => 16 * n + digit) 0, rest)
  | _ => none

/-- The character of an escape by number, in one part or in a pair of surrogates. -/
def numbered? (cs : List Char) : Option (Char × List Char) := do
  let (n, rest) ← hex4? cs
  if n < 0xD800 ∨ 0xE000 ≤ n then return (Char.ofNat n, rest)
  match rest with
  | '\\' :: 'u' :: rest =>
    let (m, rest) ← hex4? rest
    if n < 0xDC00 ∧ 0xDC00 ≤ m ∧ m < 0xE000 then
      return (Char.ofNat (0x10000 + (n - 0xD800) * 0x400 + (m - 0xDC00)), rest)
    else none
  | _ => none

/-- The character of an escape of one letter. -/
def short? : Char → Option Char
  | '"' => some '"'
  | '\\' => some '\\'
  | '/' => some '/'
  | 'b' => some '\x08'
  | 'f' => some '\x0c'
  | 'n' => some '\n'
  | 'r' => some '\r'
  | 't' => some '\t'
  | _ => none

/-- The character at the front of a text, escaped or not, and what is left. -/
def unescape? : List Char → Option (Char × List Char)
  | '\\' :: 'u' :: cs => numbered? cs
  | '\\' :: c :: cs => (short? c).map (·, cs)
  | '\\' :: [] => none
  | c :: cs => if c.toNat < 32 then none else some (c, cs)
  | [] => none

/-- The characters up to the closing quote, and what is left. Each takes one character at least, so
`fuel` as large as the text suffices. -/
def closeText? (done : List Char) : (fuel : Nat) → List Char → Option (String × List Char)
  | _, '"' :: rest => some (String.ofList done.reverse, rest)
  | 0, _ => none
  | fuel + 1, cs =>
    match unescape? cs with
    | none => none
    | some (c, rest) => closeText? (c :: done) fuel rest

/-! ## Numbers -/

/-- The characters of a number. -/
def isNumberChar (c : Char) : Bool :=
  c.isDigit || c == '-' || c == '+' || c == '.' || c == 'e' || c == 'E'

/-- The digits after a point, one at least, and what is left. -/
def fraction? : List Char → Option (List Char × List Char)
  | '.' :: c :: cs =>
    if c.isDigit then some (c :: cs.takeWhile Char.isDigit, cs.dropWhile Char.isDigit) else none
  | cs => some ([], cs)

/-- The exponent of ten after the letter for it. -/
def exponent? : List Char → Option Int
  | [] => some 0
  | c :: cs => if c == 'e' || c == 'E' then Decimal.readInt? cs else none

/-- The number that a word without its sign writes. -/
def magnitude? (negative : Bool) (word : List Char) : Option Json :=
  let whole := word.takeWhile Char.isDigit
  let fractional := word.dropWhile Char.isDigit
  let n : Int := Nat.ofDigitChars 10 whole 0
  let signed := if negative then -n else n
  if whole.isEmpty ∨ whole.length > 1 ∧ whole.head? = some '0' then none
  else if fractional.isEmpty ∧ Decimal.minInt64 ≤ signed ∧ signed < UInt64.size ∧
      ¬ (negative ∧ n = 0) then some (.int signed)
  else do
    let (fraction, rest) ← fraction? fractional
    let x := Binary64.ofDecimal negative (Nat.ofDigitChars 10 (whole ++ fraction) 0)
      ((← exponent? rest) - fraction.length)
    if h : x.isFinite = true then some (.float x h) else none

/-- The number that a word writes. -/
def number? : List Char → Option Json
  | '-' :: word => magnitude? true word
  | word => magnitude? false word

/-! ## Values -/

/-- A result with what is left, if that is shorter than the given text. -/
def shorten {α : Type} (cs : List Char) : Option (α × List Char) → Option (α × Left cs)
  | none => none
  | some (a, rest) => if h : rest.length < cs.length then some (a, ⟨rest, h⟩) else none

/-- The text at the front, after its opening quote. -/
def textAfter? (cs : List Char) : Option (String × Left cs) :=
  shorten cs (closeText? [] cs.length cs)

/-- The value at the front that is no text, array or object. -/
def scalar? (cs : List Char) : Option (Json × Left cs) :=
  shorten cs <|
    match cs with
    | 'n' :: _ => (afterWord? ['n', 'u', 'l', 'l'] cs).map (.null, ·)
    | 't' :: _ => (afterWord? ['t', 'r', 'u', 'e'] cs).map (.bool true, ·)
    | 'f' :: _ => (afterWord? ['f', 'a', 'l', 's', 'e'] cs).map (.bool false, ·)
    | _ => (number? (cs.takeWhile isNumberChar)).map (·, cs.dropWhile isNumberChar)

mutual

/-- The value at the front of a text, and what is left. -/
def readValue? (text : List Char) : Option (Json × Left text) :=
  match after? '"' text, after? '[' text, after? '\x7b' text with
  | some ⟨cs, _⟩, _, _ => do
    let (s, ⟨rest, _⟩) ← textAfter? cs
    return (.text s, ⟨rest, by omega⟩)
  | none, some ⟨cs, _⟩, _ =>
    match after? ']' cs with
    | some ⟨rest, _⟩ => some (.array [], ⟨rest, by omega⟩)
    | none => do
      let (items, ⟨rest, _⟩) ← readItems? cs
      return (.array items, ⟨rest, by omega⟩)
  | none, none, some ⟨cs, _⟩ =>
    match after? '\x7d' cs with
    | some ⟨rest, _⟩ => some (.object [], ⟨rest, by omega⟩)
    | none => do
      let (fields, ⟨rest, _⟩) ← readFields? cs
      return (.ofFields fields, ⟨rest, by omega⟩)
  | none, none, none => do
    have := length_skipGaps_le text
    let (j, ⟨rest, _⟩) ← scalar? (skipGaps text)
    return (j, ⟨rest, by omega⟩)
  termination_by 2 * text.length

/-- The items of an array up to its closing bracket. -/
def readItems? (text : List Char) : Option (List Json × Left text) := do
  let (item, ⟨cs, _⟩) ← readValue? text
  match after? ']' cs, after? ',' cs with
  | some ⟨rest, _⟩, _ => return ([item], ⟨rest, by omega⟩)
  | none, some ⟨more, _⟩ =>
    let (items, ⟨rest, _⟩) ← readItems? more
    return (item :: items, ⟨rest, by omega⟩)
  | none, none => none
  termination_by 2 * text.length + 1

/-- The fields of an object up to its closing brace. -/
def readFields? (text : List Char) : Option (List (String × Json) × Left text) := do
  let ⟨quoted, _⟩ ← after? '"' text
  let (key, ⟨afterKey, _⟩) ← textAfter? quoted
  let ⟨atValue, _⟩ ← after? ':' afterKey
  let (value, ⟨cs, _⟩) ← readValue? atValue
  match after? '\x7d' cs, after? ',' cs with
  | some ⟨rest, _⟩, _ => return ([(key, value)], ⟨rest, by omega⟩)
  | none, some ⟨more, _⟩ =>
    let (fields, ⟨rest, _⟩) ← readFields? more
    return ((key, value) :: fields, ⟨rest, by omega⟩)
  | none, none => none
  termination_by 2 * text.length + 1

end

/-- The value that a text writes. -/
def read? (source : String) : Option Json := do
  let (j, ⟨rest, _⟩) ← readValue? source.toList
  if (skipGaps rest).isEmpty then some j else none

end RequestQuery.Json
