import RequestQuery.Filter.Token
import RequestQuery.Sql.Where
import RequestQuery.Text.Split

/-!
# Tokens of a clause

A database cuts the text of a clause into words, slots of bound values, numbers, quoted texts and
signs, with blanks between them where the writer likes. Every lexeme of a fragment is read as the
tokens it stands for, by its text alone, when what follows cannot continue it (`scan?_spell`).

* `Token.scan?`: the tokens of a text, in a dialect.
* `Lexeme.tokens`: the tokens that a lexeme stands for.
-/

namespace RequestQuery.Sql

/-- A token of a clause. -/
inductive Token where
  /-- A column or a keyword. -/
  | word (s : String)
  /-- The place of the `n`th bound value. -/
  | slot (n : Nat)
  | number (n : Nat)
  /-- A quoted text, with the doubled quotes inside made single. -/
  | quoted (cs : List Char)
  | comparison (c : Comparison)
  | concat
  | openParen
  | closeParen
  | comma
  deriving DecidableEq

/-! ## Reading -/

/-- The character before the number of a slot. -/
def Dialect.mark : Dialect → Char
  | .postgres => '$'
  | .sqlite => '?'

namespace Token

/-- What is left of a text. -/
abbrev Left (cs : List Char) : Type := { rest : List Char // rest.length ≤ cs.length }

/-- What is left after the characters of a class at the front. -/
def leftAfter (p : Char → Bool) (cs : List Char) : Left cs :=
  ⟨cs.dropWhile p, (List.dropWhile_suffix p).length_le⟩

/-- The token at the front of a text that begins with no blank, and what is left. -/
def next? (d : Dialect) : (c : Char) → (cs : List Char) → Option (Token × Left cs)
  | '(', cs => some (.openParen, ⟨cs, Nat.le_refl _⟩)
  | ')', cs => some (.closeParen, ⟨cs, Nat.le_refl _⟩)
  | ',', cs => some (.comma, ⟨cs, Nat.le_refl _⟩)
  | '=', cs => some (.comparison .eq, ⟨cs, Nat.le_refl _⟩)
  | '!', '=' :: cs => some (.comparison .ne, ⟨cs, Nat.le_succ _⟩)
  | '<', '=' :: cs => some (.comparison .le, ⟨cs, Nat.le_succ _⟩)
  | '<', cs => some (.comparison .lt, ⟨cs, Nat.le_refl _⟩)
  | '>', '=' :: cs => some (.comparison .ge, ⟨cs, Nat.le_succ _⟩)
  | '>', cs => some (.comparison .gt, ⟨cs, Nat.le_refl _⟩)
  | '|', '|' :: cs => some (.concat, ⟨cs, Nat.le_succ _⟩)
  | '\'', cs =>
    match h : Filter.unquote? cs with
    | some (value, rest) =>
      some (.quoted value, ⟨rest, Nat.le_of_lt (Filter.length_lt_of_unquote? h)⟩)
    | none => none
  | c, cs =>
    let digits := cs.takeWhile Char.isDigit
    if c.isDigit then
      some (.number (Nat.ofDigitChars 10 (c :: digits) 0), leftAfter Char.isDigit cs)
    else if Ascii.isWordStart c then
      some (.word (String.ofList (c :: cs.takeWhile Ascii.isWordChar)),
        leftAfter Ascii.isWordChar cs)
    else if c = d.mark ∧ digits ≠ [] then
      some (.slot (Nat.ofDigitChars 10 digits 0), leftAfter Char.isDigit cs)
    else none

/-- The tokens of a text. -/
def scan? (d : Dialect) : List Char → Option (List Token)
  | [] => some []
  | c :: cs =>
    if c = ' ' then scan? d cs
    else (next? d c cs).bind fun (t, ⟨rest, _⟩) => (scan? d rest).map (t :: ·)
  termination_by cs => cs.length

section Steps

variable (d : Dialect)

theorem scan?_nil : scan? d [] = some [] := by
  rw [scan?]

theorem scan?_blank (cs : List Char) : scan? d (' ' :: cs) = scan? d cs := by
  rw [scan?, if_pos rfl]

variable {d}

/-- A token at the front is read first. -/
theorem scan?_of_next? (c : Char) {cs rest : List Char} {t : Token} {left : Left cs} (hc : c ≠ ' ')
    (h : next? d c cs = some (t, left)) (hleft : left.1 = rest) :
    scan? d (c :: cs) = (scan? d rest).map (t :: ·) := by
  rw [scan?, if_neg hc, h, ← hleft]
  rfl

theorem next?_wordStart {c : Char} (h : Ascii.isWordStart c = true) (cs : List Char) :
    next? d c cs = some (.word (String.ofList (c :: cs.takeWhile Ascii.isWordChar)),
      leftAfter Ascii.isWordChar cs) := by
  rw [next?.eq_def]
  split
  case h_12 => simp [Ascii.isDigit_eq_false_of_isWordStart h, h]
  all_goals exact absurd h (by decide)

theorem next?_digit {c : Char} (h : c.isDigit = true) (cs : List Char) :
    next? d c cs = some (.number (Nat.ofDigitChars 10 (c :: cs.takeWhile Char.isDigit) 0),
      leftAfter Char.isDigit cs) := by
  rw [next?.eq_def]
  split
  case h_12 => exact if_pos h
  all_goals exact absurd h (by decide)

theorem next?_quote {cs value rest : List Char} (h : Filter.unquote? cs = some (value, rest)) :
    ∃ left, next? d '\'' cs = some (.quoted value, left) ∧ left.1 = rest := by
  rw [next?]
  split
  · next value' rest' hsome =>
    obtain ⟨rfl, rfl⟩ := Prod.mk.inj (Option.some.inj (hsome.symm.trans h))
    exact ⟨_, rfl, rfl⟩
  · next hnone => cases hnone.symm.trans h

theorem next?_mark {cs : List Char} (h : cs.takeWhile Char.isDigit ≠ []) :
    next? d d.mark cs = some (.slot (Nat.ofDigitChars 10 (cs.takeWhile Char.isDigit) 0),
      leftAfter Char.isDigit cs) := by
  cases d <;> exact if_pos ⟨rfl, h⟩

/-- A word is read to its end. -/
theorem scan?_word {s : String} (hs : Ascii.isWord s = true) {rest : List Char}
    (hrest : ∀ c ∈ rest.head?, Ascii.isWordChar c = false) :
    scan? d (s.toList ++ rest) = (scan? d rest).map (.word s :: ·) := by
  obtain ⟨c, cs, hcs, hc, hall⟩ := Ascii.isWord_iff.1 hs
  have hne : c ≠ ' ' := by
    rintro rfl
    exact absurd hc (by decide)
  have hleft : (leftAfter Ascii.isWordChar (cs ++ rest)).1 = rest :=
    Text.dropWhile_append_of_head hall hrest
  rw [hcs, List.cons_append, scan?_of_next? _ hne (next?_wordStart hc _) hleft,
    Text.takeWhile_append_of_head hall hrest, ← hcs, String.ofList_toList]

/-- So is a word after a blank. -/
theorem scan?_blank_word {s : String} (hs : Ascii.isWord s = true) {rest : List Char}
    (hrest : ∀ c ∈ rest.head?, Ascii.isWordChar c = false) :
    scan? d (' ' :: (s.toList ++ rest)) = (scan? d rest).map (.word s :: ·) := by
  rw [scan?_blank, scan?_word hs hrest]

/-- And a word between blanks. -/
theorem scan?_keyword (s : String) (hs : Ascii.isWord s = true) (rest : List Char) :
    scan? d (' ' :: (s.toList ++ ' ' :: rest)) = (scan? d rest).map (.word s :: ·) := by
  rw [scan?_blank_word hs (by rintro _ ⟨⟩; decide), scan?_blank]

/-- A slot is read to the end of its number. -/
theorem scan?_slot (n : Nat) {rest : List Char} (hrest : ∀ c ∈ rest.head?, c.isDigit = false) :
    scan? d (d.mark :: (Nat.toDigits 10 n ++ rest)) = (scan? d rest).map (.slot n :: ·) := by
  have hne : d.mark ≠ ' ' := by cases d <;> decide
  have hdigits : ∀ c ∈ Nat.toDigits 10 n, c.isDigit = true :=
    fun c hc => Nat.isDigit_of_mem_toDigits (by decide) (by decide) hc
  have htake := Text.takeWhile_append_of_head hdigits hrest
  have hsome : (Nat.toDigits 10 n ++ rest).takeWhile Char.isDigit ≠ [] := by
    rw [htake]
    exact Nat.toDigits_ne_nil
  have hleft : (leftAfter Char.isDigit (Nat.toDigits 10 n ++ rest)).1 = rest :=
    Text.dropWhile_append_of_head hdigits hrest
  rw [scan?_of_next? _ hne (next?_mark hsome) hleft, htake, Nat.ofDigitChars_ten_toDigits]

/-- A number of one digit is read alone. -/
theorem scan?_digit (c : Char) (hc : c.isDigit = true) {rest : List Char}
    (hrest : ∀ c ∈ rest.head?, c.isDigit = false) :
    scan? d (c :: rest) = (scan? d rest).map (.number (Nat.ofDigitChars 10 [c] 0) :: ·) := by
  have hne : c ≠ ' ' := by
    rintro rfl
    exact absurd hc (by decide)
  have hnone : ∀ c' ∈ ([] : List Char), c'.isDigit = true := nofun
  have hleft : (leftAfter Char.isDigit rest).1 = rest :=
    Text.dropWhile_append_of_head hnone hrest
  rw [scan?_of_next? _ hne (next?_digit hc rest) hleft]
  have htake : rest.takeWhile Char.isDigit = [] := Text.takeWhile_append_of_head hnone hrest
  rw [htake]

/-- The sign of a comparison is read up to a blank. -/
theorem scan?_comparison (c : Comparison) (rest : List Char) :
    scan? d (c.sql.toList ++ ' ' :: rest) = (scan? d rest).map (.comparison c :: ·) := by
  have hblank := congrArg (Option.map (Token.comparison c :: ·)) (scan?_blank d rest)
  cases c with
  | eq => exact (scan?_of_next? '=' (by decide) rfl rfl).trans hblank
  | ne => exact (scan?_of_next? '!' (by decide) rfl rfl).trans hblank
  | lt => exact (scan?_of_next? '<' (by decide) rfl rfl).trans hblank
  | le => exact (scan?_of_next? '<' (by decide) rfl rfl).trans hblank
  | gt => exact (scan?_of_next? '>' (by decide) rfl rfl).trans hblank
  | ge => exact (scan?_of_next? '>' (by decide) rfl rfl).trans hblank

/-- A quoted character is read with its quotes. -/
theorem scan?_quoted (c : Char) (hc : c ≠ '\'') {rest : List Char}
    (hrest : ∀ c ∈ rest.head?, c ≠ '\'') :
    scan? d ('\'' :: c :: '\'' :: rest) = (scan? d rest).map (.quoted [c] :: ·) := by
  have hend : Filter.unquote? ('\'' :: rest) = some ([], rest) := by
    rw [Filter.unquote?]
    rintro cs rfl
    exact hrest _ rfl rfl
  have hvalue : Filter.unquote? (c :: '\'' :: rest) = some ([c], rest) := by
    rw [Filter.unquote?, hend, Option.map_some]
    · exact fun _ hc' => absurd hc' hc
    · exact hc
  obtain ⟨left, hnext, hleft⟩ := next?_quote (d := d) hvalue
  exact scan?_of_next? _ (by decide) hnext hleft

end Steps

end Token

/-! ## Lexemes -/

namespace Lexeme

/-- The tokens that a lexeme stands for. -/
def tokens : Lexeme → List Token
  | .column name => [.word name]
  | .comparison c => [.comparison c]
  | .isNull => [.word "IS", .word "NULL"]
  | .isNotNull => [.word "IS", .word "NOT", .word "NULL"]
  | .slot n => [.slot n]
  | .inList => [.word "IN", .openParen]
  | .equalsAny => [.comparison .eq, .word "ANY", .openParen]
  | .comma => [.comma]
  | .like => [.word "LIKE"]
  | .concat => [.concat]
  | .wildcard => [.quoted ['%']]
  | .escape => [.word "ESCAPE", .quoted ['\\']]
  | .and => [.word "AND"]
  | .or => [.word "OR"]
  | .not => [.word "NOT"]
  | .openParen => [.openParen]
  | .closeParen => [.closeParen]
  | .constant b => [.number 1, .comparison .eq, .number (if b then 1 else 0)]

/-- Whether any text may follow a lexeme: it ends in a blank or a sign. -/
def isClosed : Lexeme → Bool
  | .column _ | .isNull | .isNotNull | .slot _ | .wildcard | .escape | .constant _ => false
  | _ => true

/-- Whether a lexeme may follow any other: it begins with a blank or a sign. -/
def isSpaced : Lexeme → Bool
  | .column _ | .slot _ | .wildcard | .constant _ | .not | .openParen => false
  | _ => true

/-- A column is named by a word. -/
def WellNamed : Lexeme → Prop
  | .column name => Ascii.isWord name = true
  | _ => True

end Lexeme

/-- A text that cannot continue a token: it begins with no letter, digit, underscore or quote. -/
def Delimits (rest : List Char) : Prop :=
  ∀ c ∈ rest.head?, Ascii.isWordChar c = false ∧ c ≠ '\''

theorem delimits_blank (rest : List Char) : Delimits (' ' :: rest) := by
  rintro _ ⟨⟩
  decide

/-- A spaced lexeme cannot continue a token. -/
theorem delimits_of_isSpaced {d : Dialect} {l : Lexeme} (h : l.isSpaced = true)
    (rest : List Char) : Delimits ((l.spell d).toList ++ rest) := by
  cases l with
  | comparison c =>
    rw [Lexeme.spell]
    cases c <;> exact delimits_blank _
  | comma | closeParen =>
    rw [Lexeme.spell]
    rintro _ ⟨⟩
    decide
  | isNull | isNotNull | inList | equalsAny | like | concat | escape | and | or =>
    rw [Lexeme.spell]
    exact delimits_blank _
  | column | slot | wildcard | not | openParen | constant => cases h

theorem Dialect.toList_placeholder (d : Dialect) (n : Nat) :
    (d.placeholder n).toList = d.mark :: Nat.toDigits 10 n := by
  cases d <;> simp [placeholder, mark] <;> rfl

section Spelling

open Token

/-- **A lexeme is read as the tokens it stands for**, when what follows cannot continue it. -/
theorem scan?_spell (d : Dialect) {l : Lexeme} (hl : l.WellNamed) {rest : List Char}
    (hrest : l.isClosed = false → Delimits rest) :
    scan? d ((l.spell d).toList ++ rest) = (scan? d rest).map (l.tokens ++ ·) := by
  have hword (h : l.isClosed = false) : ∀ c ∈ rest.head?, Ascii.isWordChar c = false :=
    fun c hc => (hrest h c hc).1
  have hdigit (h : l.isClosed = false) : ∀ c ∈ rest.head?, c.isDigit = false :=
    fun c hc => Bool.eq_false_iff.2 fun hd =>
      Bool.eq_false_iff.1 (hword h c hc) (Ascii.isWordChar_of_isDigit hd)
  have hquote (h : l.isClosed = false) : ∀ c ∈ rest.head?, c ≠ '\'' :=
    fun c hc => (hrest h c hc).2
  have hblank (cs : List Char) : ∀ c ∈ (' ' :: cs).head?, Ascii.isWordChar c = false :=
    fun c hc => (delimits_blank cs c hc).1
  cases l with
  | column name => exact scan?_word hl (hword rfl)
  | comparison c =>
    have htext : (s!" {c.sql} ").toList ++ rest = ' ' :: (c.sql.toList ++ ' ' :: rest) := by
      cases c <;> rfl
    rw [Lexeme.spell, htext, scan?_blank, scan?_comparison]
    rfl
  | isNull =>
    rw [Lexeme.spell]
    change scan? d (' ' :: ("IS".toList ++ ' ' :: ("NULL".toList ++ rest))) = _
    rw [scan?_blank_word rfl (hblank _), scan?_blank_word rfl (hword rfl), Option.map_map]
    rfl
  | isNotNull =>
    rw [Lexeme.spell]
    change scan? d (' ' :: ("IS".toList ++ ' ' :: ("NOT".toList ++ ' ' ::
      ("NULL".toList ++ rest)))) = _
    rw [scan?_blank_word rfl (hblank _), scan?_blank_word rfl (hblank _),
      scan?_blank_word rfl (hword rfl), Option.map_map, Option.map_map]
    rfl
  | slot n =>
    rw [Lexeme.spell, Dialect.toList_placeholder, List.cons_append, scan?_slot n (hdigit rfl)]
    rfl
  | inList =>
    rw [Lexeme.spell]
    change scan? d (' ' :: ("IN".toList ++ ' ' :: '(' :: rest)) = _
    rw [scan?_blank_word rfl (hblank _), scan?_blank, scan?_of_next? '(' (by decide) rfl rfl,
      Option.map_map]
    rfl
  | equalsAny =>
    rw [Lexeme.spell]
    change scan? d (' ' :: '=' :: ' ' :: ("ANY".toList ++ '(' :: rest)) = _
    have hparen : ∀ c ∈ ('(' :: rest).head?, Ascii.isWordChar c = false := by
      rintro _ ⟨⟩
      decide
    rw [scan?_blank, scan?_of_next? '=' (by decide) rfl rfl, scan?_blank_word rfl hparen,
      scan?_of_next? '(' (by decide) rfl rfl, Option.map_map, Option.map_map]
    rfl
  | comma =>
    rw [Lexeme.spell]
    change scan? d (',' :: ' ' :: rest) = _
    rw [scan?_of_next? ',' (by decide) rfl rfl, scan?_blank]
    rfl
  | like =>
    rw [Lexeme.spell]
    exact scan?_keyword "LIKE" rfl rest
  | concat =>
    rw [Lexeme.spell]
    change scan? d (' ' :: '|' :: '|' :: ' ' :: rest) = _
    rw [scan?_blank, scan?_of_next? '|' (by decide) rfl rfl, scan?_blank]
    rfl
  | wildcard =>
    rw [Lexeme.spell]
    exact scan?_quoted '%' (by decide) (hquote rfl)
  | escape =>
    rw [Lexeme.spell]
    change scan? d (' ' :: ("ESCAPE".toList ++ ' ' :: '\'' :: '\\' :: '\'' :: rest)) = _
    rw [scan?_blank_word rfl (hblank _), scan?_blank, scan?_quoted '\\' (by decide) (hquote rfl),
      Option.map_map]
    rfl
  | and =>
    rw [Lexeme.spell]
    exact scan?_keyword "AND" rfl rest
  | or =>
    rw [Lexeme.spell]
    exact scan?_keyword "OR" rfl rest
  | not =>
    rw [Lexeme.spell]
    change scan? d ("NOT".toList ++ ' ' :: rest) = _
    rw [scan?_word rfl (hblank _), scan?_blank]
    rfl
  | openParen =>
    rw [Lexeme.spell]
    exact scan?_of_next? '(' (by decide) rfl rfl
  | closeParen =>
    rw [Lexeme.spell]
    exact scan?_of_next? ')' (by decide) rfl rfl
  | constant b =>
    have hsign (cs : List Char) : ∀ c ∈ ('=' :: cs).head?, c.isDigit = false := by
      rintro _ ⟨⟩
      decide
    cases b with
    | true =>
      rw [Lexeme.spell]
      change scan? d ('1' :: '=' :: '1' :: rest) = _
      rw [scan?_digit '1' rfl (hsign _), scan?_of_next? '=' (by decide) rfl rfl,
        scan?_digit '1' rfl (hdigit rfl), Option.map_map, Option.map_map]
      rfl
    | false =>
      rw [Lexeme.spell]
      change scan? d ('1' :: '=' :: '0' :: rest) = _
      rw [scan?_digit '1' rfl (hsign _), scan?_of_next? '=' (by decide) rfl rfl,
        scan?_digit '0' rfl (hdigit rfl), Option.map_map, Option.map_map]
      rfl

/-! ## Lists of lexemes -/

/-- The tokens that lexemes stand for. -/
def tokensOf (ls : List Lexeme) : List Token := ls.flatMap Lexeme.tokens

/-- The text of lexemes. -/
def charsOf (d : Dialect) (ls : List Lexeme) : List Char := ls.flatMap fun l => (l.spell d).toList

/-- Lexemes are read as the tokens they stand for, when what follows cannot continue them. -/
def Legible (d : Dialect) (ls : List Lexeme) : Prop :=
  ∀ rest, Delimits rest → scan? d (charsOf d ls ++ rest) = (scan? d rest).map (tokensOf ls ++ ·)

theorem Fragment.toList_text (d : Dialect) (f : Fragment) :
    (f.text d).toList = charsOf d f.lexemes := by
  rw [text, String.toList_join, List.flatMap_map, charsOf]

variable {d : Dialect} {l : Lexeme} {ls ms : List Lexeme}

@[simp] theorem tokensOf_nil : tokensOf [] = [] := rfl

@[simp] theorem tokensOf_cons : tokensOf (l :: ls) = l.tokens ++ tokensOf ls := List.flatMap_cons

@[simp] theorem tokensOf_append : tokensOf (ls ++ ms) = tokensOf ls ++ tokensOf ms :=
  List.flatMap_append

theorem charsOf_cons : charsOf d (l :: ls) = (l.spell d).toList ++ charsOf d ls :=
  List.flatMap_cons

theorem charsOf_append : charsOf d (ls ++ ms) = charsOf d ls ++ charsOf d ms :=
  List.flatMap_append

/-- A legible text alone is read as its tokens. -/
theorem Legible.scan?_charsOf (h : Legible d ls) : scan? d (charsOf d ls) = some (tokensOf ls) := by
  have := h [] nofun
  rwa [List.append_nil, scan?_nil, Option.map_some, List.append_nil] at this

/-- A lexeme alone is legible. -/
theorem legible_singleton (l : Lexeme) (hname : l.WellNamed) : Legible d [l] := fun rest hrest => by
  rw [charsOf_cons, tokensOf_cons, tokensOf_nil, List.append_nil, charsOf, List.flatMap_nil,
    List.append_nil, scan?_spell d hname fun _ => hrest]

/-- Any legible text may follow a closed lexeme. -/
theorem Legible.cons_closed (l : Lexeme) (hl : l.isClosed = true) (hname : l.WellNamed)
    (h : Legible d ls) : Legible d (l :: ls) := fun rest hrest => by
  have hopen : l.isClosed = false → Delimits (charsOf d ls ++ rest) := fun hfalse => by
    rw [hl] at hfalse
    cases hfalse
  rw [charsOf_cons, List.append_assoc, scan?_spell d hname hopen, h rest hrest, Option.map_map]
  exact congrArg (Option.map · _) (funext fun ts => by
    rw [tokensOf_cons, List.append_assoc, Function.comp_apply])

/-- A legible text that begins with a spaced lexeme may follow any legible text. -/
theorem Legible.append_spaced (h : Legible d ls) (hms : Legible d (l :: ms))
    (hl : l.isSpaced = true) : Legible d (ls ++ l :: ms) := fun rest hrest => by
  have hdelimits : Delimits (charsOf d (l :: ms) ++ rest) := by
    rw [charsOf_cons, List.append_assoc]
    exact delimits_of_isSpaced hl _
  rw [charsOf_append, List.append_assoc, h _ hdelimits, hms rest hrest, Option.map_map]
  exact congrArg (Option.map · _) (funext fun ts => by
    rw [tokensOf_append, List.append_assoc, Function.comp_apply])

end Spelling

end RequestQuery.Sql
