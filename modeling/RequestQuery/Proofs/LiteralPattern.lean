import Mathlib.Data.List.Infix
import RequestQuery.Proofs.RenderedClause

/-!
# Patterns that match literally

A pattern is matched against a text as a database does it with backslash for the escape character:
a percent sign stands for any text, an underscore for any character, a backslash with a character
for that character, and every other character for itself. The text of a filter function is bound
with its wildcards escaped, and the dialect joins percent signs to it, so the pattern that the
rendered test makes is matched by the texts that begin with the text, end with it or contain it,
whatever characters it has.

* `matchesLike`: the match of a pattern.
* `matchesLike_escapeWildcards_append`: an escaped text in front matches itself only.
* `likePattern?`: the pattern of a rendered test, read off its text and the bound values.
* `likePattern_literal`: what the pattern of a rendered test is, and what it matches.
-/

namespace RequestQuery

/-- Whether a text has another one where the anchor wants it. -/
def Anchor.Holds (part whole : List Char) : Anchor → Prop
  | .atStart => part <+: whole
  | .atEnd => part <:+ whole
  | .anywhere => part <:+: whole

namespace Sql

/-! ## Matching -/

/-- Whether a text matches a pattern. A backslash at the end of the pattern stands for itself. -/
def matchesLike : (pattern : List Char) → (cs : List Char) → Bool
  | [], cs => cs.isEmpty
  | '%' :: pattern, cs => cs.tails.any fun rest => matchesLike pattern rest
  | '_' :: pattern, _ :: cs => matchesLike pattern cs
  | '\\' :: p :: pattern, c :: cs => c == p && matchesLike pattern cs
  | p :: pattern, c :: cs => c == p && matchesLike pattern cs
  | _ :: _, [] => false

variable {pattern cs : List Char}

theorem matchesLike_nil_iff : matchesLike [] cs = true ↔ cs = [] := by
  rw [matchesLike, List.isEmpty_iff]

/-- A percent sign passes over any text. -/
theorem matchesLike_percent_iff : matchesLike ('%' :: pattern) cs = true ↔
    ∃ rest, rest <:+ cs ∧ matchesLike pattern rest = true := by
  simp only [matchesLike, List.any_eq_true, List.mem_tails]

/-- At the end of a pattern it matches every text. -/
theorem matchesLike_percent : matchesLike ['%'] cs = true :=
  matchesLike_percent_iff.2 ⟨[], List.nil_suffix, rfl⟩

/-- A backslash with a character stands for that character. -/
theorem matchesLike_backslash_iff {p : Char} : matchesLike ('\\' :: p :: pattern) cs = true ↔
    ∃ rest, cs = p :: rest ∧ matchesLike pattern rest = true := by
  cases cs <;> simp [matchesLike]

/-- A character that is no wildcard and no backslash stands for itself. -/
theorem matchesLike_self_iff {p : Char} (hp : ¬(p = '\\' ∨ p = '%' ∨ p = '_')) :
    matchesLike (p :: pattern) cs = true ↔
      ∃ rest, cs = p :: rest ∧ matchesLike pattern rest = true := by
  obtain ⟨hbackslash, hwild⟩ := not_or.1 hp
  cases cs <;> simp [matchesLike, hbackslash, not_or.1 hwild]

/-- **An escaped text in front of a pattern matches itself only**, by induction on the text. -/
theorem matchesLike_escapeWildcards_append (p : List Char) (pattern cs : List Char) :
    matchesLike (escapeWildcards p ++ pattern) cs = true ↔
      ∃ rest, cs = p ++ rest ∧ matchesLike pattern rest = true := by
  induction p generalizing cs with
  | nil => simp [escapeWildcards]
  | cons c p ih =>
    have hcons : matchesLike (escapeWildcards (c :: p) ++ pattern) cs = true ↔
        ∃ rest, cs = c :: rest ∧ matchesLike (escapeWildcards p ++ pattern) rest = true := by
      rw [escapeWildcards, List.flatMap_cons, List.append_assoc]
      split
      · exact matchesLike_backslash_iff
      · next hc => exact matchesLike_self_iff hc
    rw [hcons]
    constructor
    · rintro ⟨rest, rfl, hrest⟩
      obtain ⟨left, rfl, hleft⟩ := (ih rest).1 hrest
      exact ⟨left, rfl, hleft⟩
    · rintro ⟨left, rfl, hleft⟩
      exact ⟨p ++ left, rfl, (ih (p ++ left)).2 ⟨left, rfl, hleft⟩⟩

/-! ## Escaped texts with wildcards around them -/

/-- A text escaped, with the wildcards that an anchor leaves beside it. -/
def patternOf (p : List Char) : Anchor → List Char
  | .atStart => escapeWildcards p ++ ['%']
  | .atEnd => '%' :: escapeWildcards p
  | .anywhere => '%' :: (escapeWildcards p ++ ['%'])

theorem matchesLike_escapeWildcards_iff (p cs : List Char) :
    matchesLike (escapeWildcards p) cs = true ↔ cs = p := by
  rw [← List.append_nil (escapeWildcards p), matchesLike_escapeWildcards_append]
  simp only [matchesLike_nil_iff, exists_eq_right, List.append_nil]

theorem matchesLike_escapeWildcards_percent_iff (p cs : List Char) :
    matchesLike (escapeWildcards p ++ ['%']) cs = true ↔ p <+: cs := by
  rw [matchesLike_escapeWildcards_append]
  exact exists_congr fun rest => by rw [and_iff_left matchesLike_percent, eq_comm]

/-- **A text escaped matches where it occurs**, whatever wildcards and backslashes it has. -/
theorem matchesLike_patternOf_iff (anchor : Anchor) (p cs : List Char) :
    matchesLike (patternOf p anchor) cs = true ↔ anchor.Holds p cs := by
  cases anchor with
  | atStart => exact matchesLike_escapeWildcards_percent_iff p cs
  | atEnd =>
    change matchesLike ('%' :: escapeWildcards p) cs = true ↔ p <:+ cs
    simp only [matchesLike_percent_iff, matchesLike_escapeWildcards_iff, exists_eq_right]
  | anywhere =>
    change matchesLike ('%' :: (escapeWildcards p ++ ['%'])) cs = true ↔ p <:+: cs
    rw [matchesLike_percent_iff, List.infix_iff_prefix_suffix]
    simp only [matchesLike_escapeWildcards_percent_iff, and_comm]

/-! ## The pattern of a rendered test -/

/-- The text of an operand: the value of a slot, or a text as it is quoted. -/
def operandText? (params : List Value) : Token → Option (List Char)
  | .slot n =>
    match Clause.bound? params n with
    | some (.text s) => some s.toList
    | _ => none
  | .quoted cs => some cs
  | _ => none

/-- The text of operands joined one after another, and the tokens left. -/
def joinedText? (params : List Value) : List Token → Option (List Char × List Token)
  | t :: .concat :: rest => do
    let text ← operandText? params t
    let (more, left) ← joinedText? params rest
    return (text ++ more, left)
  | t :: rest => (operandText? params t).map fun text => (text, rest)
  | [] => none

/-- The pattern that a test matches a column against, with backslash for the escape character. -/
def likePattern? (d : Dialect) (params : List Value) (column text : String) :
    Option (List Char) := do
  match ← Token.scan? d text.toList with
  | .word name :: keyword :: rest =>
    if name = column ∧ keyword.isWord "LIKE" = true then
      match ← joinedText? params rest with
      | (pattern, [escape, .quoted ['\\']]) =>
        if escape.isWord "ESCAPE" then return pattern else none
      | _ => none
    else none
  | _ => none

section Joined

variable {params : List Value} {t : Token} {rest left : List Token} {text more : List Char}

theorem joinedText?_concat (ht : operandText? params t = some text)
    (hrest : joinedText? params rest = some (more, left)) :
    joinedText? params (t :: .concat :: rest) = some (text ++ more, left) := by
  rw [joinedText?, ht, hrest]
  rfl

theorem joinedText?_last (ht : operandText? params t = some text)
    (hrest : rest.head? ≠ some .concat) :
    joinedText? params (t :: rest) = some (text, rest) := by
  rw [joinedText?, ht, Option.map_some]
  rintro more rfl
  exact hrest rfl

end Joined

/-- The pattern of a rendered test is its text escaped, with the wildcards of the anchor. -/
theorem likePattern?_fragment (d : Dialect) (column : Identifier) (anchor : Anchor) (p : String)
    (before after : List Value) :
    let f := Atom.fragment d (before.length + 1) ⟨column, .pattern anchor, .text p⟩
    likePattern? d (before ++ f.params ++ after) column.text (f.text d) =
      some (patternOf p.toList anchor) := by
  intro f
  have hscan : Token.scan? d (f.text d).toList = some (tokensOf f.lexemes) := by
    rw [f.toList_text]
    exact (Atom.says_fragment d _ ⟨column, .pattern anchor, .text p⟩).legible.scan?_charsOf
  have hslot : operandText? (before ++ f.params ++ after) (.slot (before.length + 1)) =
      some (escapeWildcards p.toList) := by
    have hparams : f.params = [.text (String.ofList (escapeWildcards p.toList))] := rfl
    rw [operandText?, hparams, List.append_assoc, List.singleton_append, bound?_append]
    exact congrArg some String.toList_ofList
  have hwildcard : operandText? (before ++ f.params ++ after) (.quoted ['%']) = some ['%'] := rfl
  have hjoined : joinedText? (before ++ f.params ++ after) ((tokensOf f.lexemes).drop 2) =
      some (patternOf p.toList anchor, [.word "ESCAPE", .quoted ['\\']]) := by
    cases anchor with
    | atStart => exact joinedText?_concat hslot (joinedText?_last hwildcard nofun)
    | atEnd => exact joinedText?_concat hwildcard (joinedText?_last hslot nofun)
    | anywhere =>
      exact joinedText?_concat hwildcard
        (joinedText?_concat hslot (joinedText?_last hwildcard nofun))
  have htokens : tokensOf f.lexemes =
      .word column.text :: .word "LIKE" :: (tokensOf f.lexemes).drop 2 := by
    cases anchor <;> rfl
  rw [likePattern?, hscan, htokens]
  change (if column.text = column.text ∧ (Token.word "LIKE").isWord "LIKE" = true then _ else _) = _
  rw [if_pos ⟨rfl, by decide⟩, hjoined]
  rfl

/-- **The test of a pattern matches literally.** In either dialect, and whatever values are bound
around its own, the text of the test and its value make the escaped text with the wildcards of the
anchor, and that matches the texts that have the given text where the anchor wants it. -/
theorem likePattern_literal (d : Dialect) (column : Identifier) (anchor : Anchor) (p s : String)
    (before after : List Value) :
    let f := Atom.fragment d (before.length + 1) ⟨column, .pattern anchor, .text p⟩
    likePattern? d (before ++ f.params ++ after) column.text (f.text d) =
        some (patternOf p.toList anchor) ∧
      (matchesLike (patternOf p.toList anchor) s.toList = true ↔ anchor.Holds p.toList s.toList) :=
  ⟨likePattern?_fragment d column anchor p before after,
    matchesLike_patternOf_iff anchor p.toList s.toList⟩

/-- A backslash at the end of a text does not reach the wildcard after it. -/
example : matchesLike (patternOf "50%\\".toList .atStart) "50%\\ off".toList = true ∧
    matchesLike (patternOf "50%\\".toList .atStart) "50 %\\ off".toList = false ∧
    matchesLike (patternOf "50%\\".toList .atStart) "50%%".toList = false := by decide

end Sql

end RequestQuery
