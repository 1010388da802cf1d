import RequestQuery.Text.Ascii
import RequestQuery.Text.Utf8

/-!
# Components of a query text

A key or a value of a query text is written with escapes: a percent sign and two hexadecimal digits
stand for an octet, and a plus sign for a space. What is read is UTF-8.

* `unescape?`: the octets of a component. Reading stops once 65536 octets have been read and more
  text follows. A percent sign takes the two octets after it; when they are no hexadecimal digits,
  all three stand as they are written.
* `decode?`: the text of a component, with replacement characters for what is not UTF-8.
-/

namespace RequestQuery.Form

/-- The octets that may have been read when another character is taken. -/
def maxOctets : Nat := 65536

/-- The value of an octet that is a hexadecimal digit. -/
def hexValue? (octet : UInt8) : Option Nat := Ascii.hexValue? (Char.ofNat octet.toNat)

/-- The percent sign. -/
def percent : UInt8 := 0x25

/-- The plus sign. -/
def plus : UInt8 := 0x2B

/-- The space. -/
def space : UInt8 := 0x20

/-- The octets that the rest of a component stands for, after those read so far, latest first, and
their number. -/
def unescapeFrom? (done : List UInt8) (size : Nat) : List UInt8 → Option (List UInt8)
  | [] => some done.reverse
  | octet :: rest =>
    if maxOctets ≤ size then none
    else if octet = percent then
      match rest with
      | high :: low :: rest =>
        match hexValue? high, hexValue? low with
        | some h, some l => unescapeFrom? (UInt8.ofNat (16 * h + l) :: done) (size + 1) rest
        | _, _ => unescapeFrom? (low :: high :: percent :: done) (size + 3) rest
      | [high] => some (high :: percent :: done).reverse
      | [] => some (percent :: done).reverse
    else if octet = plus then unescapeFrom? (space :: done) (size + 1) rest
    else unescapeFrom? (octet :: done) (size + 1) rest

/-- The octets that a component stands for. -/
def unescape? (octets : List UInt8) : Option (List UInt8) := unescapeFrom? [] 0 octets

/-- The text that a component stands for. -/
def decode? (component : String) : Option String :=
  (unescape? (Utf8.encode component.toList)).map fun octets => String.ofList (Utf8.decode octets)

end RequestQuery.Form
