import RequestQuery.Sql.Operator
import RequestQuery.Sql.Value

/-!
# Lexemes of a condition

A condition is written as a list of lexemes, and the values its placeholders stand for are listed
beside them: a `Fragment`. Only the spelling of a lexeme is text, so no value can reach the text of
a statement, and what a fragment says can be read off its lexemes.

* `Dialect`: the databases that statements are written for, with the spellings they differ in.
* `Lexeme.spell`: the text of a lexeme, with the blanks around it.
* `Dialect.membership`, `Dialect.like`: membership in a list, and the match of a pattern.
-/

namespace RequestQuery.Sql

/-- The databases that statements are written for. -/
inductive Dialect where
  | postgres
  | sqlite
  deriving DecidableEq

/-- The name of a dialect. -/
def Dialect.name : Dialect → String
  | .postgres => "postgres"
  | .sqlite => "sqlite"

/-- The placeholder of the `n`th bound value, counted from one. -/
def Dialect.placeholder : Dialect → Nat → String
  | .postgres, n => s!"${n}"
  | .sqlite, n => s!"?{n}"

/-- An offset without a limit. SQLite takes an offset after a limit only, and a negative limit
bounds nothing. -/
def Dialect.bareOffset : Dialect → UInt64 → String
  | .postgres, offset => s!" OFFSET {offset.toNat}"
  | .sqlite, offset => s!" LIMIT -1 OFFSET {offset.toNat}"

/-- A lexeme of a condition. -/
inductive Lexeme where
  | column (name : String)
  | comparison (c : Comparison)
  | isNull
  | isNotNull
  /-- The place of the `n`th bound value. -/
  | slot (n : Nat)
  /-- The beginning of a list of placeholders to look a column up in. -/
  | inList
  /-- The beginning of one placeholder for a whole list. -/
  | equalsAny
  | comma
  | like
  /-- The joining of two texts. -/
  | concat
  /-- The pattern that any text matches. -/
  | wildcard
  | escape
  | and
  | or
  | not
  | openParen
  | closeParen
  /-- A condition that holds or fails for every row. -/
  | constant (b : Bool)
  deriving DecidableEq

/-- The text of a lexeme, with the blanks around it. -/
def Lexeme.spell (d : Dialect) : Lexeme → String
  | .column name => name
  | .comparison c => s!" {c.sql} "
  | .isNull => " IS NULL"
  | .isNotNull => " IS NOT NULL"
  | .slot n => d.placeholder n
  | .inList => " IN ("
  | .equalsAny => " = ANY("
  | .comma => ", "
  | .like => " LIKE "
  | .concat => " || "
  | .wildcard => "'%'"
  | .escape => " ESCAPE '\\'"
  | .and => " AND "
  | .or => " OR "
  | .not => "NOT "
  | .openParen => "("
  | .closeParen => ")"
  | .constant true => "1=1"
  | .constant false => "1=0"

/-- Lexemes with the values of their placeholders, in the order of the placeholders. -/
structure Fragment where
  lexemes : List Lexeme
  params : List Value

namespace Fragment

/-- The text of a fragment. -/
def text (d : Dialect) (f : Fragment) : String := String.join (f.lexemes.map (·.spell d))

/-- Fragments with a lexeme between them. -/
def joinWith (separator : Lexeme) (parts : List Fragment) : Fragment where
  lexemes := [separator].intercalate (parts.map lexemes)
  params := parts.flatMap params

/-- A fragment in parentheses. -/
def parenthesize (f : Fragment) : Fragment :=
  { f with lexemes := .openParen :: f.lexemes ++ [.closeParen] }

end Fragment

/-- Membership of a column in a list, with the first placeholder free to use. Postgres binds the
list as one value, SQLite each of its elements. -/
def Dialect.membership (d : Dialect) (column : String) (values : List Value) (first : Nat) :
    Fragment :=
  match d with
  | .postgres => ⟨[.column column, .equalsAny, .slot first, .closeParen], [.list values]⟩
  | .sqlite =>
    let slots := (List.range' first values.length).map Lexeme.slot
    ⟨[.column column, .inList] ++ slots.intersperse .comma ++ [.closeParen], values⟩

/-- The match of a column against the text bound to a placeholder. An operator that is no pattern
matches anywhere. -/
def likeLexemes (column : String) (op : Operator) (n : Nat) : List Lexeme :=
  let pattern : List Lexeme :=
    match op with
    | .pattern .atStart => [.slot n, .concat, .wildcard]
    | .pattern .atEnd => [.wildcard, .concat, .slot n]
    | _ => [.wildcard, .concat, .slot n, .concat, .wildcard]
  [.column column, .like] ++ pattern ++ [.escape]

end RequestQuery.Sql
