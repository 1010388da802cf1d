import RequestQuery.Sql.Condition
import RequestQuery.Sql.Lexeme

/-!
# Conditions as fragments

How a condition is written: its placeholders are numbered from a given number on, in the order in
which they are written, and its values are listed in the same order.

* `Atom.fragment`: one test. Equality with null is the null test, an empty list holds nothing, and
  the text of a pattern is escaped.
* `Condition.fragment`: a tree. A group of several parts stands in parentheses, a group of one part
  is that part, and an empty group is a constant.
-/

namespace RequestQuery.Sql

/-! ## Escaping patterns -/

/-- A text whose characters match themselves only, in a pattern with the escape character
backslash. -/
def escapeWildcards (cs : List Char) : List Char :=
  cs.flatMap fun c => if c = '\\' ∨ c = '%' ∨ c = '_' then ['\\', c] else [c]

/-- The value to bind for a pattern. -/
def escapePattern : Value → Value
  | .text s => .text (String.ofList (escapeWildcards s.toList))
  | v => v

/-! ## Atoms -/

/-- The elements to look a column up in; a single value is a list of one. -/
def listed : Value → List Value
  | .list items => items
  | v => [v]

/-- A test as a fragment whose first placeholder has the number `next`. -/
def Atom.fragment (d : Dialect) (next : Nat) (a : Atom) : Fragment :=
  let column := a.column.text
  match a.op, a.value with
  | .compare .eq, .null => ⟨[.column column, .isNull], []⟩
  | .compare .ne, .null => ⟨[.column column, .isNotNull], []⟩
  | .compare c, v => ⟨[.column column, .comparison c, .slot next], [v]⟩
  | .member, v =>
    match listed v with
    | [] => ⟨[.constant false], []⟩
    | values => d.membership column values next
  | .pattern p, v => ⟨likeLexemes column (.pattern p) next, [escapePattern v]⟩

/-! ## Trees -/

/-- The fragments of a group's parts as one: a constant for no part, the part itself for one, and
several in parentheses. -/
def group (separator : Lexeme) (empty : Bool) : List Fragment → Fragment
  | [] => ⟨[.constant empty], []⟩
  | [only] => only
  | parts => (Fragment.joinWith separator parts).parenthesize

mutual

/-- A tree as a fragment whose first placeholder has the number `next`. -/
def Condition.fragment (d : Dialect) (next : Nat) : Condition → Fragment
  | .atom a => a.fragment d next
  | .all parts => group .and true (Condition.fragments d next parts)
  | .any parts => group .or false (Condition.fragments d next parts)
  | .not part =>
    let f := (part.fragment d next).parenthesize
    ⟨.not :: f.lexemes, f.params⟩

/-- Trees as fragments, each numbered on from the ones before. -/
def Condition.fragments (d : Dialect) (next : Nat) : List Condition → List Fragment
  | [] => []
  | part :: rest =>
    let f := part.fragment d next
    f :: Condition.fragments d (next + f.params.length) rest

end

end RequestQuery.Sql
