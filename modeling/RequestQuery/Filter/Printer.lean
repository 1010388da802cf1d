import RequestQuery.Filter.Token
import RequestQuery.Json.Text

/-!
# Printing filters

The text of a filter, with single blanks between its tokens and no more parentheses than it needs to
be read back: around what is negated, around a disjunction in a conjunction, and around a right part
with the connective that it is a part of.

* `Filter.kinds`: the tokens of a filter, by their kinds.
* `Kind.spell`: the text of a token; a quote inside a text is doubled.
* `Filter.text`: the text of a filter.
* `Filter.nesting`: how deep parentheses and negations nest in it.
-/

namespace RequestQuery.Filter

/-! ## Spelling tokens -/

/-- The characters of a text between quotes: a quote is doubled. -/
def doubleQuotes (cs : List Char) : List Char :=
  cs.flatMap fun c => if c = '\'' then ['\'', '\''] else [c]

/-- Decimals are written without an exponent. -/
def decimalLayout : Binary64.Layout := ⟨-324, 308⟩

/-- The text of a token. -/
def Kind.spell : Kind → List Char
  | .word s => s.toList
  | .text s => '\'' :: (doubleQuotes s.toList ++ ['\''])
  | .int n => Json.intChars n.toInt
  | .decimal x => decimalLayout.chars x
  | .openParen => ['(']
  | .closeParen => [')']
  | .comma => [',']

/-- Tokens with single blanks between them. -/
def spellAll (ks : List Kind) : List Char := [' '].intercalate (ks.map Kind.spell)

/-! ## The tokens of filters -/

/-- The token of a literal. -/
def literalKind : Literal → Kind
  | .text s => .text s
  | .int n => .int n
  | .decimal x => .decimal x
  | .bool true => .word "true"
  | .bool false => .word "false"
  | .null => .word "null"

/-- The token of an argument. -/
def argumentKind : Argument → Kind
  | .column name => .word name
  | .literal l => literalKind l

/-- Tokens in parentheses. -/
def parenthesize (ks : List Kind) : List Kind := .openParen :: (ks ++ [.closeParen])

/-- Tokens in parentheses if they need them. -/
def parenthesizeIf (needed : Bool) (ks : List Kind) : List Kind :=
  if needed then parenthesize ks else ks

/-- Whether a filter is a disjunction. -/
def isOr : Filter → Bool
  | .or _ _ => true
  | _ => false

/-- Whether a filter is a conjunction. -/
def isAnd : Filter → Bool
  | .and _ _ => true
  | _ => false

/-- The tokens of a filter. -/
def kinds : Filter → List Kind
  | .compare column op l => [.word column, .word op.word, literalKind l]
  | .call function args =>
    .word function :: parenthesize ((args.map argumentKind).intersperse .comma)
  | .and left right =>
    parenthesizeIf left.isOr left.kinds ++
      .word "and" :: parenthesizeIf (right.isOr || right.isAnd) right.kinds
  | .or left right => left.kinds ++ .word "or" :: parenthesizeIf right.isOr right.kinds
  | .not inner => .word "not" :: parenthesize inner.kinds

/-- The text of a filter. -/
def text (f : Filter) : String := String.ofList (spellAll f.kinds)

/-- One level more for parentheses, if they are needed. -/
def nestIf (needed : Bool) (depth : Nat) : Nat := if needed then depth + 1 else depth

/-- How deep parentheses and negations nest in the text of a filter. What is negated counts twice,
for the negation and for its parentheses. -/
def nesting : Filter → Nat
  | .compare _ _ _ => 0
  | .call _ _ => 0
  | .and left right =>
    max (nestIf left.isOr left.nesting) (nestIf (right.isOr || right.isAnd) right.nesting)
  | .or left right => max left.nesting (nestIf right.isOr right.nesting)
  | .not inner => inner.nesting + 2

example : (Filter.and (.or (.compare "or" .eq (.text "it's")) (.compare "b" .lt (.int (-3))))
    (.not (.call "f" [.column "a", .literal .null]))).text =
      "( or eq 'it''s' or b lt -3 ) and not ( f ( a , null ) )" := by
  decide +kernel

end RequestQuery.Filter
