import RequestQuery.Filter.Basic
import RequestQuery.Text.Utf8

/-!
# Tokens of a filter

A filter text is cut into words, quoted texts, numbers, parentheses and commas, with blanks between
them where the writer likes. Every token knows the octets it spans.

* `Token.scan`: the tokens of a text.
* `scanToken`: the token at the front of a text that begins with no blank, and what is left, which
  is shorter.
-/

namespace RequestQuery.Filter

/-- What a token is. -/
inductive Kind where
  /-- A column, keyword, operator or function name. -/
  | word (s : String)
  /-- A quoted text, with the doubled quotes inside made single. -/
  | text (s : String)
  | int (n : Int64)
  | decimal (x : Binary64)
  | openParen
  | closeParen
  | comma
  deriving DecidableEq

/-- A token with the octet positions where it starts and stops. -/
structure Token where
  kind : Kind
  start : Nat
  stop : Nat
  deriving DecidableEq

/-- A token at the front of a text: its kind, the octets it takes and the text after it. -/
structure Scanned (cs : List Char) where
  kind : Kind
  width : Nat
  rest : List Char
  shorter : rest.length < cs.length

/-- The characters that may stand between tokens. -/
def isGap (c : Char) : Bool := c == ' ' || c == '\t' || c == '\r' || c == '\n'

/-! ## Words and quoted texts -/

/-- The word that begins with `c`. -/
def scanWord (c : Char) (cs : List Char) : Scanned (c :: cs) where
  kind := .word (String.ofList (c :: cs.takeWhile Ascii.isWordChar))
  width := Utf8.widthOf (c :: cs.takeWhile Ascii.isWordChar)
  rest := cs.dropWhile Ascii.isWordChar
  shorter := Nat.lt_succ_of_le (List.dropWhile_suffix _).length_le

/-- The text up to a lone quote, where a doubled quote stands for one, and what comes after. -/
def unquote? : List Char → Option (List Char × List Char)
  | [] => none
  | '\'' :: '\'' :: cs => (unquote? cs).map fun (value, rest) => ('\'' :: value, rest)
  | '\'' :: cs => some ([], cs)
  | c :: cs => (unquote? cs).map fun (value, rest) => (c :: value, rest)

theorem length_lt_of_unquote? {cs value rest : List Char} (h : unquote? cs = some (value, rest)) :
    rest.length < cs.length := by
  fun_induction unquote? cs generalizing value rest with
  | case1 => cases h
  | case2 cs ih =>
    obtain ⟨⟨v, r⟩, hv, he⟩ := Option.map_eq_some_iff.1 h
    obtain ⟨-, rfl⟩ := Prod.mk.injEq .. ▸ he
    have := ih hv
    simp only [List.length_cons]; omega
  | case3 cs => cases h; simp
  | case4 c cs _ _ ih =>
    obtain ⟨⟨v, r⟩, hv, he⟩ := Option.map_eq_some_iff.1 h
    obtain ⟨-, rfl⟩ := Prod.mk.injEq .. ▸ he
    have := ih hv
    simp only [List.length_cons]; omega

/-- The octets of a quoted text: the quotes around it, and each quote inside twice. -/
def quotedWidth (value : List Char) : Nat := 2 + Utf8.widthOf value + value.count '\''

/-- The quoted text that begins after an opening quote at a position. -/
def scanText (start : Nat) (cs : List Char) : Except Fault (Scanned ('\'' :: cs)) :=
  match h : unquote? cs with
  | none => .error (.malformed start .unterminatedText)
  | some (value, rest) =>
    .ok ⟨.text (String.ofList value), quotedWidth value, rest,
      Nat.lt_succ_of_lt (length_lt_of_unquote? h)⟩

/-! ## Numbers -/

/-- The digits after a point at the front; without a digit the point is no part of the number. -/
def fractionDigits : List Char → List Char
  | '.' :: cs => cs.takeWhile Char.isDigit
  | _ => []

/-- What is left after a point and the digits after it. -/
def afterFraction : List Char → List Char
  | '.' :: cs =>
    if (cs.takeWhile Char.isDigit).isEmpty then '.' :: cs else cs.dropWhile Char.isDigit
  | cs => cs

theorem length_afterFraction_le (cs : List Char) : (afterFraction cs).length ≤ cs.length := by
  unfold afterFraction
  split
  · split
    · exact Nat.le_refl _
    · exact Nat.le_succ_of_le (List.dropWhile_suffix _).length_le
  · exact Nat.le_refl _

/-- Whether a text begins with a character that cannot follow a number. -/
def continuesNumber : List Char → Bool
  | c :: _ => c.isAlpha || c == '_' || c == '.'
  | [] => false

/-- The number that digits write, with a sign and perhaps a fraction. -/
def numberKind (start : Nat) (negative : Bool) (whole fraction : List Char) : Except Fault Kind :=
  if fraction.isEmpty then
    let magnitude : Int := Nat.ofDigitChars 10 whole 0
    match Decimal.toInt64? (if negative then -magnitude else magnitude) with
    | some n => .ok (.int n)
    | none => .error (.malformed start .integerOutOfRange)
  else
    .ok (.decimal (Binary64.ofDecimal negative (Nat.ofDigitChars 10 (whole ++ fraction) 0)
      (-(fraction.length : Int))))

/-- The number at the front of a text, after its sign if it has one. -/
def scanNumber (start : Nat) (negative : Bool) (cs : List Char) : Except Fault (Scanned cs) :=
  let whole := cs.takeWhile Char.isDigit
  let after := cs.dropWhile Char.isDigit
  let fraction := fractionDigits after
  let rest := afterFraction after
  let width := (if negative then 1 else 0) + whole.length +
    (if fraction.isEmpty then 0 else 1 + fraction.length)
  if h : whole = [] then .error (.malformed start .numberExpected)
  else if continuesNumber rest then .error (.malformed (start + width) .malformedNumber)
  else do
    let kind ← numberKind start negative whole fraction
    return ⟨kind, width, rest, by
      have h₁ : rest.length ≤ after.length := length_afterFraction_le after
      have h₂ : whole.length + after.length = cs.length := by
        rw [← List.length_append, List.takeWhile_append_dropWhile]
      have h₃ : 0 < whole.length := List.length_pos_iff.2 h
      omega⟩

/-! ## Texts -/

/-- The token at the front of a text. -/
def scanToken (start : Nat) : (c : Char) → (cs : List Char) → Except Fault (Scanned (c :: cs))
  | '(', cs => .ok ⟨.openParen, 1, cs, Nat.lt_succ_self _⟩
  | ')', cs => .ok ⟨.closeParen, 1, cs, Nat.lt_succ_self _⟩
  | ',', cs => .ok ⟨.comma, 1, cs, Nat.lt_succ_self _⟩
  | '\'', cs => scanText start cs
  | '-', cs => do
    let number ← scanNumber start true cs
    return ⟨number.kind, number.width, number.rest, Nat.lt_succ_of_lt number.shorter⟩
  | c, cs =>
    if c.isDigit then scanNumber start false (c :: cs)
    else if Ascii.isWordStart c then .ok (scanWord c cs)
    else .error (.malformed start (.unexpectedCharacter c))

/-- The tokens of a text that begins at a position. -/
def scanFrom (start : Nat) : List Char → Except Fault (List Token)
  | [] => .ok []
  | c :: cs =>
    if isGap c then scanFrom (start + 1) cs
    else do
      let token ← scanToken start c cs
      let more ← scanFrom (start + token.width) token.rest
      return ⟨token.kind, start, start + token.width⟩ :: more
  termination_by cs => cs.length
  decreasing_by
    · simp
    · exact token.shorter

/-- The tokens of a filter text. -/
def Token.scan (source : String) : Except Fault (List Token) := scanFrom 0 source.toList

end RequestQuery.Filter
