import RequestQuery.Text.Combining
import RequestQuery.Text.Ignorable
import RequestQuery.Text.Printable

/-!
# Quoted texts and characters in messages

How a message shows a text that came with a request, so that it cannot be mistaken for the message
itself: between quotes, with the quote and the backslash escaped, the usual short forms for tab,
carriage return, line feed and the null character, and a braced hexadecimal number for every other
character that is not printable, that combines with its neighbour or that is displayed as nothing.

* `escape quote c`: the form of one character inside the given quotes.
* `text s`: a text in double quotes; a single quote inside is left alone.
* `character c`: a character in single quotes; a double quote is left alone.
-/

namespace RequestQuery.Text.Quoted

/-- The lower-case hexadecimal digits of a number, without leading zeros. -/
def hexDigits (n : Nat) : List Char := Nat.toDigits 16 n

/-- A character as its number: a backslash, `u` and the number in braces. -/
def numbered (c : Char) : List Char := ['\\', 'u', '\x7b'] ++ hexDigits c.toNat ++ ['\x7d']

/-- The form of a character between two `quote`s. -/
def escape (quote : Char) (c : Char) : List Char :=
  if c = '\x00' then ['\\', '0']
  else if c = '\t' then ['\\', 't']
  else if c = '\r' then ['\\', 'r']
  else if c = '\n' then ['\\', 'n']
  else if c = '\\' ∨ c = quote then ['\\', c]
  else if isCombining c ∨ isIgnorable c ∨ !isPrintable c then numbered c
  else [c]

/-- A text in double quotes. -/
def text (s : String) : String :=
  String.ofList (['"'] ++ s.toList.flatMap (escape '"') ++ ['"'])

/-- A character in single quotes. -/
def character (c : Char) : String :=
  String.ofList (['\''] ++ escape '\'' c ++ ['\''])

/-- A quote inside is escaped, so the first bare quote after the opening one closes the text. -/
theorem escape_quote : escape '"' '"' = ['\\', '"'] := rfl

end RequestQuery.Text.Quoted
