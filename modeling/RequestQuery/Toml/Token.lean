import RequestQuery.Text.Ascii

/-!
# Tokens of a TOML document

A document is cut into bare words, quoted texts, signs and line ends; comments are dropped. What a
bare word means depends on where it stands: it is a key before an equals sign and a number or a
truth value after it.

* `Token.scan?`: the tokens of a document, if it can be cut.
* `closeText?`, `closeBlock?`, `closeLiteral?`, `closeLiteralBlock?`: the four kinds of quoted
  texts.
-/

namespace RequestQuery.Toml

/-- What a token is. -/
inductive Kind where
  /-- Letters, digits, dashes and underscores. -/
  | bare (cs : List Char)
  /-- A quoted text on one line, which may be a key. -/
  | text (s : String)
  /-- A quoted text that may span lines. -/
  | block (s : String)
  | dot
  | equals
  | comma
  | plus
  | openBracket
  | closeBracket
  | openBrace
  | closeBrace
  | newline
  deriving DecidableEq

/-- A token, and whether it stands right after another one. -/
structure Token where
  kind : Kind
  glued : Bool
  deriving DecidableEq

/-- Fewer characters than the given ones. -/
abbrev Shorter (cs : List Char) : Type := { rest : List Char // rest.length < cs.length }

/-- The characters of bare keys. -/
def isBare (c : Char) : Bool := c.isAlphanum || c == '_' || c == '-'

/-- The control characters, which stand for themselves nowhere. -/
def isControl (c : Char) : Bool := (c.toNat < 32 && c != '\t') || c.toNat == 127

/-! ## Escapes -/

/-- The character with the number that hexadecimal digits write. -/
def character? (digits : List Char) : Option Char := do
  let values ← digits.mapM Ascii.hexValue?
  let n := values.foldl (fun n d => 16 * n + d) 0
  if n.isValidChar then some (Char.ofNat n) else none

/-- The character that so many hexadecimal digits at the front write, and what is left. -/
def numbered? (count : Nat) (cs : List Char) : Option (Char × List Char) := do
  if (cs.take count).length ≠ count then none
  return (← character? (cs.take count), cs.drop count)

/-- The character that stands for itself in short after a backslash. -/
def short? : Char → Option Char
  | 'b' => some '\x08'
  | 't' => some '\t'
  | 'n' => some '\n'
  | 'f' => some '\x0c'
  | 'r' => some '\r'
  | 'e' => some '\x1b'
  | '"' => some '"'
  | '\\' => some '\\'
  | _ => none

/-- The digits that follow a letter after a backslash. -/
def digitCount? : Char → Option Nat
  | 'x' => some 2
  | 'u' => some 4
  | 'U' => some 8
  | _ => none

/-- The character that an escape writes, and what is left after it. -/
def escaped? : List Char → Option (Char × List Char)
  | [] => none
  | c :: cs =>
    match short? c, digitCount? c with
    | some d, _ => some (d, cs)
    | none, some count => numbered? count cs
    | none, none => none

theorem length_lt_of_escaped? {cs rest : List Char} {c : Char}
    (h : escaped? cs = some (c, rest)) : rest.length < cs.length := by
  unfold escaped? at h
  split at h
  · cases h
  · next d cs =>
    split at h
    · cases h; simp
    · next count _ _ =>
      simp only [numbered?] at h
      split at h
      · cases h
      · cases hc : character? (List.take count cs) with
        | none => simp [hc] at h
        | some e =>
          simp only [hc, Option.pure_def, Option.bind_eq_bind, Option.bind_some] at h
          have := (Prod.mk.inj (Option.some.inj h)).2
          rw [← this, List.length_drop, List.length_cons]; omega
    · cases h

/-- What is left after blanks and line ends. A carriage return is part of a line end only before a
line feed. -/
def skipSpace : List Char → List Char
  | ' ' :: cs => skipSpace cs
  | '\t' :: cs => skipSpace cs
  | '\n' :: cs => skipSpace cs
  | '\r' :: '\n' :: cs => skipSpace cs
  | cs => cs

theorem length_skipSpace_le (cs : List Char) : (skipSpace cs).length ≤ cs.length := by
  fun_induction skipSpace cs with
  | case1 _ ih | case2 _ ih | case3 _ ih => exact Nat.le_succ_of_le ih
  | case4 _ ih => exact Nat.le_succ_of_le (Nat.le_succ_of_le ih)
  | case5 => exact Nat.le_refl _

/-- What is left after the blanks and line ends that follow a backslash at the end of a line. -/
def afterLineEnd? (cs : List Char) : Option (List Char) :=
  match cs.dropWhile fun c => c == ' ' || c == '\t' with
  | '\n' :: rest => some (skipSpace rest)
  | '\r' :: '\n' :: rest => some (skipSpace rest)
  | _ => none

theorem length_lt_of_afterLineEnd? {cs rest : List Char} (h : afterLineEnd? cs = some rest) :
    rest.length < cs.length := by
  have hle := (List.dropWhile_suffix (l := cs) fun c => c == ' ' || c == '\t').length_le
  unfold afterLineEnd? at h
  split at h
  · next rest' he =>
    cases h
    have := length_skipSpace_le rest'
    rw [he, List.length_cons] at hle; omega
  · next rest' he =>
    cases h
    have := length_skipSpace_le rest'
    rw [he] at hle; simp only [List.length_cons] at hle; omega
  · cases h

/-! ## Quoted texts -/

/-- The text up to the next double quote, latest character first, and what is left. -/
def closeText? (done : List Char) (cs : List Char) : Option (List Char × List Char) :=
  match cs with
  | [] => none
  | '"' :: rest => some (done, rest)
  | '\\' :: rest =>
    match h : escaped? rest with
    | none => none
    | some (c, left) =>
      have := length_lt_of_escaped? h
      closeText? (c :: done) left
  | c :: rest => if isControl c then none else closeText? (c :: done) rest
  termination_by cs.length

/-- The text up to the next single quote, latest character first, and what is left. -/
def closeLiteral? (done : List Char) : List Char → Option (List Char × List Char)
  | [] => none
  | '\'' :: rest => some (done, rest)
  | c :: rest => if isControl c then none else closeLiteral? (c :: done) rest

/-- The text up to three double quotes, latest character first, and what is left. Two more quotes
right before the closing ones belong to the text, and line ends stay as they are written. -/
def closeBlock? (done : List Char) (cs : List Char) : Option (List Char × List Char) :=
  match cs with
  | [] => none
  | '"' :: '"' :: '"' :: '"' :: '"' :: rest => some ('"' :: '"' :: done, rest)
  | '"' :: '"' :: '"' :: '"' :: rest => some ('"' :: done, rest)
  | '"' :: '"' :: '"' :: rest => some (done, rest)
  | '\\' :: rest =>
    match h : escaped? rest, h' : afterLineEnd? rest with
    | some (c, left), _ =>
      have := length_lt_of_escaped? h
      closeBlock? (c :: done) left
    | none, some left =>
      have := length_lt_of_afterLineEnd? h'
      closeBlock? done left
    | none, none => none
  | '\r' :: '\n' :: rest => closeBlock? ('\n' :: '\r' :: done) rest
  | c :: rest => if isControl c && c != '\n' then none else closeBlock? (c :: done) rest
  termination_by cs.length

/-- The text up to three single quotes, latest character first, and what is left. Two more quotes
right before the closing ones belong to the text, and line ends stay as they are written. -/
def closeLiteralBlock? (done : List Char) : List Char → Option (List Char × List Char)
  | [] => none
  | '\'' :: '\'' :: '\'' :: '\'' :: '\'' :: rest => some ('\'' :: '\'' :: done, rest)
  | '\'' :: '\'' :: '\'' :: '\'' :: rest => some ('\'' :: done, rest)
  | '\'' :: '\'' :: '\'' :: rest => some (done, rest)
  | '\r' :: '\n' :: rest => closeLiteralBlock? ('\n' :: '\r' :: done) rest
  | c :: rest =>
    if isControl c && c != '\n' then none else closeLiteralBlock? (c :: done) rest

/-- A block without a line end right after its opening quotes. -/
def dropLineEnd : List Char → List Char
  | '\n' :: cs => cs
  | '\r' :: '\n' :: cs => cs
  | cs => cs

/-! ## Tokens -/

/-- The kind of a sign of one character. -/
def sign? : Char → Option Kind
  | '.' => some .dot
  | '=' => some .equals
  | ',' => some .comma
  | '+' => some .plus
  | '[' => some .openBracket
  | ']' => some .closeBracket
  | '\x7b' => some .openBrace
  | '\x7d' => some .closeBrace
  | '\n' => some .newline
  | _ => none

/-- A quoted text given by its characters, latest first. -/
def quoted (kind : String → Kind) (found : List Char × List Char) : Kind × List Char :=
  (kind (String.ofList found.1.reverse), found.2)

/-- The token at the front of a text without blanks and comments before it, and what is left. -/
def scanToken? : List Char → Option (Kind × List Char)
  | [] => none
  | '"' :: '"' :: '"' :: cs => (closeBlock? [] (dropLineEnd cs)).map (quoted .block)
  | '\'' :: '\'' :: '\'' :: cs => (closeLiteralBlock? [] (dropLineEnd cs)).map (quoted .block)
  | '"' :: cs => (closeText? [] cs).map (quoted .text)
  | '\'' :: cs => (closeLiteral? [] cs).map (quoted .text)
  | '\r' :: '\n' :: cs => some (.newline, cs)
  | c :: cs =>
    match sign? c with
    | some kind => some (kind, cs)
    | none =>
      if isBare c then some (.bare (c :: cs.takeWhile isBare), cs.dropWhile isBare) else none

/-- What is left after a comment, up to the end of its line. -/
def skipComment? : List Char → Option (List Char)
  | [] => some []
  | '\n' :: cs => some ('\n' :: cs)
  | '\r' :: '\n' :: cs => some ('\r' :: '\n' :: cs)
  | c :: cs => if isControl c then none else skipComment? cs

/-- The tokens of a text. A token is never longer than the text, so `fuel` as large as the text
suffices. -/
def scanWith? (glued : Bool) : (fuel : Nat) → List Char → Option (List Token)
  | _, [] => some []
  | 0, _ => none
  | fuel + 1, c :: cs =>
    if c == ' ' || c == '\t' then scanWith? false fuel cs
    else if c == '#' then (skipComment? cs).bind (scanWith? false fuel)
    else
      match scanToken? (c :: cs) with
      | none => none
      | some (kind, rest) => (scanWith? true fuel rest).map (⟨kind, glued⟩ :: ·)

/-- The tokens of a document; a byte order mark at the front is left out. -/
def Token.scan? (source : String) : Option (List Token) :=
  let cs := source.toList
  let body := match cs with
    | '\uFEFF' :: rest => rest
    | _ => cs
  scanWith? false body.length body

end RequestQuery.Toml
