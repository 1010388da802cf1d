/-!
# Operators

The tests of a column against a value: the six comparisons, membership in a list, and the match of
a text at the start, at the end or anywhere.
-/

namespace RequestQuery

/-- A comparison of two values. -/
inductive Comparison where
  | eq
  | ne
  | lt
  | le
  | gt
  | ge
  deriving DecidableEq

namespace Comparison

/-- The comparisons, in the order in which words are looked up. -/
def all : List Comparison := [.eq, .ne, .lt, .le, .gt, .ge]

/-- The sign in a statement. -/
def sql : Comparison → String
  | .eq => "="
  | .ne => "!="
  | .lt => "<"
  | .le => "<="
  | .gt => ">"
  | .ge => ">="

/-- The word in a filter. -/
def word : Comparison → String
  | .eq => "eq"
  | .ne => "ne"
  | .lt => "lt"
  | .le => "le"
  | .gt => "gt"
  | .ge => "ge"

end Comparison

/-- Where in a text another one must occur. -/
inductive Anchor where
  | atStart
  | atEnd
  | anywhere
  deriving DecidableEq

namespace Anchor

/-- The anchors, in the order in which function names are looked up. -/
def all : List Anchor := [.atStart, .atEnd, .anywhere]

/-- The name of the filter function. -/
def function : Anchor → String
  | .atStart => "startswith"
  | .atEnd => "endswith"
  | .anywhere => "contains"

end Anchor

namespace Sql

/-- The test of a column against a bound value. -/
inductive Operator where
  /-- A comparison; equality with null is the null test. -/
  | compare (c : Comparison)
  /-- Membership in a list. -/
  | member
  /-- The occurrence of a text. -/
  | pattern (a : Anchor)
  deriving DecidableEq

namespace Operator

/-- The sign or the keyword of an operator. -/
def sql : Operator → String
  | .compare c => c.sql
  | .member => "IN"
  | .pattern _ => "LIKE"

/-- Whether the operator matches a pattern. -/
def isPattern : Operator → Bool
  | .pattern _ => true
  | _ => false

end Operator

/-- The direction of a sort key. -/
inductive Direction where
  | ascending
  | descending
  deriving DecidableEq

/-- The keyword of a direction. -/
def Direction.sql : Direction → String
  | .ascending => "ASC"
  | .descending => "DESC"

end Sql

end RequestQuery
