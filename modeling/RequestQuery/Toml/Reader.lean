import RequestQuery.Decimal.Whole
import RequestQuery.Toml.Table
import RequestQuery.Toml.Token

/-!
# Reading TOML documents

Settings are read from TOML documents. A setting is a text, an integer, a truth value or an array or
table of these; a document that holds a fraction or a date is refused like one that does not parse.

* `read?`: a document as a JSON object.
* `value?`: the value at the front of a list of tokens.
-/

namespace RequestQuery.Toml

/-! ## Integers -/

/-- The digits of a number whose digits may be parted by single underscores. -/
def ungroup? : List Char → Option (List Char)
  | [] => none
  | [c] => if c == '_' then none else some [c]
  | c :: '_' :: rest => if c == '_' then none else (ungroup? rest).map (c :: ·)
  | c :: rest => (ungroup? rest).map (c :: ·)

/-- The number that digits of a base write. -/
def inBase? (base : Nat) (digits : List Char) : Option Nat := do
  let values ← (← ungroup? digits).mapM Ascii.hexValue?
  if values.any (base ≤ ·) then none
  return values.foldl (fun n d => base * n + d) 0

/-- The number that decimal digits write, without a zero at the front of others. -/
def decimal? (digits : List Char) : Option Nat :=
  match digits with
  | '0' :: _ :: _ => none
  | _ => inBase? 10 digits

/-- The integer that a bare word writes. -/
def integer? : List Char → Option Int
  | '-' :: digits => (decimal? digits).map fun n => -(n : Int)
  | '0' :: 'x' :: digits => (inBase? 16 digits).map Int.ofNat
  | '0' :: 'o' :: digits => (inBase? 8 digits).map Int.ofNat
  | '0' :: 'b' :: digits => (inBase? 2 digits).map Int.ofNat
  | digits => (decimal? digits).map Int.ofNat

/-- The value that a bare word writes. -/
def bare? (word : List Char) : Option Json :=
  if word = "true".toList then some (.bool true)
  else if word = "false".toList then some (.bool false)
  else (integer? word).map .int

/-! ## Keys and values -/

/-- Fewer tokens than the given ones. -/
abbrev Fewer (tokens : List Token) : Type := { rest : List Token // rest.length < tokens.length }

/-- The key that a token writes. -/
def key? (t : Token) : Option String :=
  match t.kind with
  | .bare cs => some (String.ofList cs)
  | .text s => some s
  | _ => none

/-- The keys with points between them at the front, and the tokens after them. -/
def keys? : (tokens : List Token) → Option (List String × Fewer tokens)
  | [] => none
  | token :: rest =>
    match key? token, rest with
    | none, _ => none
    | some key, ⟨.dot, _⟩ :: more =>
      match keys? more with
      | none => none
      | some (others, ⟨left, fewer⟩) =>
        some (key :: others, ⟨left, by simp only [List.length_cons]; omega⟩)
    | some key, rest => some ([key], ⟨rest, Nat.lt_succ_self _⟩)

/-- The keys at the front up to an equals sign on the same line, and the tokens after it. -/
def path? (tokens : List Token) : Option (List String × Fewer tokens) :=
  match keys? tokens with
  | some (path, ⟨⟨.equals, _⟩ :: rest, fewer⟩) =>
    some (path, ⟨rest, by simp only [List.length_cons] at fewer; omega⟩)
  | _ => none

/-- The tokens after line ends. -/
def skipLines (tokens : List Token) : List Token := tokens.dropWhile (·.kind = .newline)

theorem length_skipLines_le (tokens : List Token) : (skipLines tokens).length ≤ tokens.length :=
  (List.dropWhile_suffix _).length_le

/-- The tokens after a sign, if it comes next after line ends. -/
def after? (sign : Kind) (tokens : List Token) : Option (Fewer tokens) :=
  match h : skipLines tokens with
  | [] => none
  | token :: rest =>
    if token.kind = sign then
      some ⟨rest, by have := length_skipLines_le tokens; rw [h, List.length_cons] at this; omega⟩
    else none

mutual

/-- The value at the front, and the tokens after it. -/
def value? (tokens : List Token) : Option (Json × Fewer tokens) :=
  match tokens with
  | ⟨.text s, _⟩ :: rest => some (.text s, ⟨rest, Nat.lt_succ_self _⟩)
  | ⟨.block s, _⟩ :: rest => some (.text s, ⟨rest, Nat.lt_succ_self _⟩)
  | ⟨.bare word, _⟩ :: rest => (bare? word).map (·, ⟨rest, Nat.lt_succ_self _⟩)
  | ⟨.plus, _⟩ :: ⟨.bare word, true⟩ :: rest =>
    (decimal? word).map (.int ·, ⟨rest, by simp only [List.length_cons]; omega⟩)
  | ⟨.openBracket, _⟩ :: rest => do
    let (items, ⟨left, _⟩) ← items? rest
    return (.array items, ⟨left, by simp only [List.length_cons]; omega⟩)
  | ⟨.openBrace, _⟩ :: rest => do
    let (pairs, ⟨left, _⟩) ← pairs? rest
    let entries ← Entry.assignAll? pairs []
    return (.object (Entry.fields entries), ⟨left, by simp only [List.length_cons]; omega⟩)
  | _ => none
  termination_by 2 * tokens.length

/-- The items of an array up to its closing bracket. Lines may end anywhere between the parts. -/
def items? (tokens : List Token) : Option (List Json × Fewer tokens) :=
  match after? .closeBracket tokens with
  | some rest => some ([], rest)
  | none => do
    have := length_skipLines_le tokens
    let (item, ⟨last, _⟩) ← value? (skipLines tokens)
    match after? .closeBracket last, after? .comma last with
    | some ⟨rest, _⟩, _ => return ([item], ⟨rest, by omega⟩)
    | none, some ⟨rest, _⟩ =>
      let (others, ⟨left, _⟩) ← items? rest
      return (item :: others, ⟨left, by omega⟩)
    | none, none => none
  termination_by 2 * tokens.length + 1

/-- The keys and values of an inline table up to its closing brace. Lines may end anywhere between
the parts, but not within a dotted key. -/
def pairs? (tokens : List Token) : Option (List (List String × Json) × Fewer tokens) :=
  match after? .closeBrace tokens with
  | some rest => some ([], rest)
  | none => do
    have := length_skipLines_le tokens
    let (path, ⟨sign, _⟩) ← keys? (skipLines tokens)
    let ⟨atValue, _⟩ ← after? .equals sign
    have := length_skipLines_le atValue
    let (j, ⟨last, _⟩) ← value? (skipLines atValue)
    match after? .closeBrace last, after? .comma last with
    | some ⟨rest, _⟩, _ => return ([(path, j)], ⟨rest, by omega⟩)
    | none, some ⟨rest, _⟩ =>
      let (others, ⟨left, _⟩) ← pairs? rest
      return ((path, j) :: others, ⟨left, by omega⟩)
    | none, none => none
  termination_by 2 * tokens.length + 1

end

/-! ## Documents -/

/-- A line of a document. -/
inductive Line where
  /-- The header of a table. -/
  | header (path : List String)
  /-- The header of one more table of an array. -/
  | arrayHeader (path : List String)
  | assignment (path : List String) (j : Json)

/-- The tokens after the end of a line; the last line needs none. -/
def lineEnd? (tokens : List Token) : Option { rest : List Token // rest.length ≤ tokens.length } :=
  match tokens with
  | [] => some ⟨[], Nat.le_refl _⟩
  | ⟨.newline, _⟩ :: rest => some ⟨rest, Nat.le_succ _⟩
  | _ => none

/-- The tokens after the brackets that close a header, one or two of them, and the end of its
line. -/
def headerEnd? (double : Bool) (tokens : List Token) :
    Option { rest : List Token // rest.length ≤ tokens.length } :=
  match double, tokens with
  | false, ⟨.closeBracket, _⟩ :: last =>
    (lineEnd? last).map fun ⟨left, _⟩ => ⟨left, by simp only [List.length_cons]; omega⟩
  | true, ⟨.closeBracket, _⟩ :: ⟨.closeBracket, true⟩ :: last =>
    (lineEnd? last).map fun ⟨left, _⟩ => ⟨left, by simp only [List.length_cons]; omega⟩
  | _, _ => none

/-- The line at the front, which is not blank, and the tokens after its end. -/
def line? (tokens : List Token) : Option (Line × Fewer tokens) :=
  match tokens with
  | ⟨.openBracket, _⟩ :: ⟨.openBracket, true⟩ :: rest => do
    let (path, ⟨after, _⟩) ← keys? rest
    let ⟨left, _⟩ ← headerEnd? true after
    return (.arrayHeader path, ⟨left, by simp only [List.length_cons]; omega⟩)
  | ⟨.openBracket, _⟩ :: rest => do
    let (path, ⟨after, _⟩) ← keys? rest
    let ⟨left, _⟩ ← headerEnd? false after
    return (.header path, ⟨left, by simp only [List.length_cons]; omega⟩)
  | tokens => do
    let (path, ⟨atValue, _⟩) ← path? tokens
    let (j, ⟨last, _⟩) ← value? atValue
    let ⟨left, _⟩ ← lineEnd? last
    return (.assignment path j, ⟨left, by omega⟩)

/-- The lines of a document that are not blank. -/
def lines? (tokens : List Token) : Option (List Line) :=
  match tokens with
  | [] => some []
  | ⟨.newline, _⟩ :: rest => lines? rest
  | first :: rest => do
    let (line, ⟨left, _⟩) ← line? (first :: rest)
    return line :: (← lines? left)
  termination_by tokens.length
  decreasing_by all_goals (simp only [List.length_cons] at *; omega)

/-- The header that opens a table, and the assignments up to the next header. -/
structure Section where
  opening : Option Line
  values : List (List String × Json)

/-- The sections of a document: the assignments before the first header, and each header with those
that follow it. -/
def sections : List Line → List Section
  | [] => [⟨none, []⟩]
  | .assignment path j :: rest =>
    match sections rest with
    | ⟨opening, values⟩ :: others => ⟨opening, (path, j) :: values⟩ :: others
    | [] => []
  | header :: rest =>
    match sections rest with
    | ⟨_, values⟩ :: others => ⟨none, []⟩ :: ⟨some header, values⟩ :: others
    | [] => []

/-- Entries with a section added. -/
def addSection? (entries : List (String × Entry)) (s : Section) :
    Option (List (String × Entry)) :=
  match s.opening with
  | some (.header path) => Entry.openTable? (Entry.assignAll? s.values) path entries
  | some (.arrayHeader path) => Entry.openArray? (Entry.assignAll? s.values) path entries
  | _ => Entry.assignAll? s.values entries

/-- A document as a JSON object. -/
def read? (source : String) : Option Json := do
  let lines ← lines? (← Token.scan? source)
  let entries ← (sections lines).foldlM addSection? []
  return .object (Entry.fields entries)

end RequestQuery.Toml
