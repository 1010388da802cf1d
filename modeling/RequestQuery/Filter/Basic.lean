import RequestQuery.Sql.Operator
import RequestQuery.Sql.Value
import RequestQuery.Text.Ascii
import RequestQuery.Text.Quoted

/-!
# Filters

The tree of a filter as it is written, before any column is looked up, and the ways in which a text
or a tree fails to be a filter.

* `Filter`: comparisons, function calls, and the connectives.
* `Filter.Fault`: why a filter is refused, with `Filter.Reason` for texts that do not parse.
* `Comparison.ofWord?`, `Anchor.ofFunction?`: operators and functions by name, in any case.
-/

namespace RequestQuery

/-- A literal of a filter. -/
inductive Literal where
  | text (s : String)
  | int (n : Int64)
  | decimal (x : Binary64)
  | bool (b : Bool)
  | null

/-- The value that a literal stands for. -/
def Literal.value : Literal → Value
  | .text s => .text s
  | .int n => .int n
  | .decimal x => .float x
  | .bool b => .bool b
  | .null => .null

/-- An argument of a function call. -/
inductive Argument where
  | column (name : String)
  | literal (l : Literal)

/-- A filter as it is written. -/
inductive Filter where
  | compare (column : String) (op : Comparison) (literal : Literal)
  | call (function : String) (args : List Argument)
  | and (left right : Filter)
  | or (left right : Filter)
  | not (inner : Filter)

/-- The comparison that a word names, in any case. -/
def Comparison.ofWord? (word : String) : Option Comparison :=
  Comparison.all.find? fun c => Ascii.sameLetters word c.word

/-- The anchor that a function name stands for, in any case. -/
def Anchor.ofFunction? (name : String) : Option Anchor :=
  Anchor.all.find? fun a => Ascii.sameLetters name a.function

@[simp] theorem Comparison.ofWord?_word (c : Comparison) :
    Comparison.ofWord? c.word = some c := by
  cases c <;> decide

/-- Words that two comparisons have in common, up to case, make them the same comparison. -/
theorem Comparison.eq_of_sameLetters {c d : Comparison}
    (h : Ascii.sameLetters c.word d.word = true) : c = d := by
  revert h
  cases c <;> cases d <;> decide

theorem Comparison.ofWord?_eq_some_iff {word : String} {c : Comparison} :
    Comparison.ofWord? word = some c ↔ Ascii.sameLetters word c.word = true := by
  unfold Comparison.ofWord?
  constructor
  · intro h
    have hc := List.find?_some h
    exact hc
  · intro h
    cases hf : Comparison.all.find? fun c => Ascii.sameLetters word c.word with
    | none =>
      have hall : c ∈ Comparison.all := by cases c <;> decide
      exact absurd h (List.find?_eq_none.1 hf c hall)
    | some d =>
      have hd := List.find?_some hf
      rw [Comparison.eq_of_sameLetters (Ascii.sameLetters_of_sameLetters hd h)]

@[simp] theorem Anchor.ofFunction?_function (a : Anchor) :
    Anchor.ofFunction? a.function = some a := by
  cases a <;> decide

namespace Filter

/-- Why a text does not parse as a filter. -/
inductive Reason where
  | unexpectedCharacter (c : Char)
  | unterminatedText
  | numberExpected
  | malformedNumber
  | integerOutOfRange
  | unexpectedToken
  | operandExpected
  | unexpectedEnd
  | closeExpected
  | operatorExpected
  | literalExpected
  | separatorExpected
  deriving DecidableEq

/-- The text of a reason. -/
def Reason.message : Reason → String
  | .unexpectedCharacter c => s!"unexpected character {Text.Quoted.character c}"
  | .unterminatedText => "unterminated string"
  | .numberExpected => "expected a number after '-'"
  | .malformedNumber => "malformed number"
  | .integerOutOfRange => "integer out of range"
  | .unexpectedToken => "unexpected token"
  | .operandExpected => "expected a column or '('"
  | .unexpectedEnd => "unexpected end of expression"
  | .closeExpected => "expected ')'"
  | .operatorExpected => "expected an operator"
  | .literalExpected => "expected a literal"
  | .separatorExpected => "expected ',' or ')'"

/-- What is wrong with a function call. -/
inductive CallFlaw where
  | unknownFunction
  | badArguments
  deriving DecidableEq

/-- The text of a flaw of a call. -/
def CallFlaw.message : CallFlaw → String
  | .unknownFunction => "unknown function"
  | .badArguments => "expects (column, 'string')"

/-- Why a filter is refused. -/
inductive Fault where
  /-- The text does not parse; the position counts octets. -/
  | malformed (position : Nat) (reason : Reason)
  /-- A word in the place of an operator is none, or does not apply to null. -/
  | unsupportedOperator (operator : String)
  | unsupportedCall (function : String) (flaw : CallFlaw)
  | unknownColumn (column : String)
  /-- Parentheses and negations nest deeper than allowed. -/
  | tooDeep (max actual : Nat)
  deriving DecidableEq

end Filter

end RequestQuery
