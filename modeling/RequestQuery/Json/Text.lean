import RequestQuery.Json.Basic
import RequestQuery.Binary64.Layout

/-!
# The text of a JSON value

Compact: no blanks, fields in key order. Texts escape the quote, the backslash and the characters
below the space, and nothing else. Numbers that are not integers have the shortest digits that read
back.
-/

namespace RequestQuery.Json

/-- Numbers from 0.00001 up to below 10^16 are written in positional notation. -/
def numberLayout : Binary64.Layout := ⟨-5, 15⟩

/-- The two lower-case hexadecimal digits of a number below 256. -/
def hexPair (n : Nat) : List Char := [Nat.digitChar (n / 16), Nat.digitChar (n % 16)]

/-- The form of a character inside a text. -/
def escapeChar (c : Char) : List Char :=
  if c = '"' then ['\\', '"']
  else if c = '\\' then ['\\', '\\']
  else if c = '\n' then ['\\', 'n']
  else if c = '\r' then ['\\', 'r']
  else if c = '\t' then ['\\', 't']
  else if c = '\x08' then ['\\', 'b']
  else if c = '\x0c' then ['\\', 'f']
  else if c.toNat < 32 then ['\\', 'u', '0', '0'] ++ hexPair c.toNat
  else [c]

/-- A text between quotes. -/
def quotedChars (s : String) : List Char := ['"'] ++ s.toList.flatMap escapeChar ++ ['"']

/-- An integer in decimal. -/
def intChars (n : Int) : List Char :=
  (if n < 0 then ['-'] else []) ++ Nat.toDigits 10 n.natAbs

mutual

/-- The characters of a value's text. -/
def chars : Json → List Char
  | .null => ['n', 'u', 'l', 'l']
  | .bool true => ['t', 'r', 'u', 'e']
  | .bool false => ['f', 'a', 'l', 's', 'e']
  | .int n => intChars n
  | .float x _ => numberLayout.chars x
  | .text s => quotedChars s
  | .array items => ['['] ++ itemChars items ++ [']']
  | .object fields => ['\x7b'] ++ fieldChars fields ++ ['\x7d']

/-- The items of an array with commas between them. -/
def itemChars : List Json → List Char
  | [] => []
  | [item] => item.chars
  | item :: rest => item.chars ++ [','] ++ itemChars rest

/-- The fields of an object with commas between them. -/
def fieldChars : List (String × Json) → List Char
  | [] => []
  | [(key, value)] => quotedChars key ++ [':'] ++ value.chars
  | (key, value) :: rest => quotedChars key ++ [':'] ++ value.chars ++ [','] ++ fieldChars rest

end

/-- The text of a value. -/
def toText (j : Json) : String := String.ofList j.chars

example : (object [("a", .array [.int 1, .null])]).toText = "\x7b\"a\":[1,null]\x7d" := by
  decide +kernel

end RequestQuery.Json
