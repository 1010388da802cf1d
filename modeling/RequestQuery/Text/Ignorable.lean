/-!
# Ignorable characters

`isIgnorable` is the Unicode property Default_Ignorable_Code_Point, as Unicode 17 assigns it:
characters that are displayed as nothing at all, letters such as the Hangul fillers among them. A
message that held one as it is would look as if it were not there.
-/

namespace RequestQuery.Text

/-- The ranges of code points with the property Default_Ignorable_Code_Point, in increasing
order. -/
def ignorableRanges : List (Nat × Nat) :=
  [(0x00AD, 0x00AD), (0x034F, 0x034F), (0x061C, 0x061C), (0x115F, 0x1160), (0x17B4, 0x17B5),
    (0x180B, 0x180F), (0x200B, 0x200F), (0x202A, 0x202E), (0x2060, 0x206F), (0x3164, 0x3164),
    (0xFE00, 0xFE0F), (0xFEFF, 0xFEFF), (0xFFA0, 0xFFA0), (0xFFF0, 0xFFF8), (0x1BCA0, 0x1BCA3),
    (0x1D173, 0x1D17A), (0xE0000, 0xE0FFF)]

/-- A character that is displayed as nothing. No ASCII character is. -/
def isIgnorable (c : Char) : Bool :=
  let n := c.toNat
  127 ≤ n && ignorableRanges.any fun (first, last) => first ≤ n && n ≤ last

end RequestQuery.Text
