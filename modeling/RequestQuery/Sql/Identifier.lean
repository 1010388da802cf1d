import RequestQuery.Text.Ascii
import RequestQuery.Text.Quoted
import RequestQuery.Text.Utf8

/-!
# Identifiers

The names of tables and columns that may stand in a statement without quotes: an ASCII letter or an
underscore, then ASCII letters, digits and underscores, 63 octets at most. `Identifier` is the type
of such names, so a statement built from identifiers cannot be extended by one.

* `Identifier.flaw?`: why a text is no identifier, the first reason that applies.
* `Identifier.ofString?`: a text as an identifier.
* `Identifier.isWord_text`: an identifier is a word.
-/

namespace RequestQuery.Sql

namespace Identifier

/-- Why a text is no identifier. -/
inductive Flaw where
  /-- There is no character. -/
  | empty
  /-- There are more octets than a database keeps of a name. -/
  | tooLong (width : Nat)
  /-- The first character that no identifier has there, and the octets before it. -/
  | badCharacter (position : Nat) (found : Char)
  deriving DecidableEq

/-- The octets that a database keeps of a name. -/
def maxWidth : Nat := 63

/-- The text of a flaw. -/
def Flaw.message : Flaw → String
  | .empty => "identifier is empty"
  | .tooLong width => s!"identifier is {width} bytes long, maximum is {maxWidth}"
  | .badCharacter position found =>
    s!"invalid character {Text.Quoted.character found} at position {position}"

/-- The first character that does not continue a name, from an octet position on. -/
def badChar? (position : Nat) : List Char → Option Flaw
  | [] => none
  | c :: rest =>
    if Ascii.isWordChar c then badChar? (position + c.utf8Size) rest
    else some (.badCharacter position c)

/-- The first reason why a text is no identifier. -/
def flaw? (s : String) : Option Flaw :=
  match s.toList with
  | [] => some .empty
  | c :: rest =>
    let width := Utf8.width s
    if maxWidth < width then some (.tooLong width)
    else if Ascii.isWordStart c then badChar? c.utf8Size rest
    else some (.badCharacter 0 c)

end Identifier

/-- A name that may stand in a statement without quotes. -/
structure Identifier where
  text : String
  valid : Identifier.flaw? text = none
  deriving DecidableEq

namespace Identifier

/-- A text as an identifier, or the reason why it is none. -/
def ofString? (s : String) : Except Flaw Identifier :=
  match h : flaw? s with
  | none => .ok ⟨s, h⟩
  | some flaw => .error flaw

theorem ofString?_eq_ok_iff {s : String} {i : Identifier} : ofString? s = .ok i ↔ i.text = s := by
  obtain ⟨text, valid⟩ := i
  unfold ofString?
  split
  · simp only [Except.ok.injEq, Identifier.mk.injEq]
    exact eq_comm
  · next flaw hf =>
    simp only [reduceCtorEq, false_iff]
    rintro rfl
    rw [valid] at hf
    cases hf

theorem forall_isWordChar_of_badChar? {cs : List Char} {position : Nat}
    (h : badChar? position cs = none) : ∀ c ∈ cs, Ascii.isWordChar c = true := by
  induction cs generalizing position with
  | nil => exact fun _ => nofun
  | cons c cs ih =>
    unfold badChar? at h
    split at h
    · next hc => exact List.forall_mem_cons.2 ⟨hc, ih h⟩
    · cases h

/-- An identifier is a word. -/
theorem isWord_text (i : Identifier) : Ascii.isWord i.text = true := by
  have h := i.valid
  unfold flaw? at h
  split at h
  · cases h
  · next c cs hcs =>
    simp only at h
    split at h
    · cases h
    · split at h
      · next hc => exact Ascii.isWord_iff.2 ⟨c, cs, hcs, hc, forall_isWordChar_of_badChar? h⟩
      · cases h

end Identifier

/-! ## Names that are refused -/

/-- What a name in a statement is for. -/
inductive Role where
  | table
  | field
  | filterColumn
  | sortField
  deriving DecidableEq

/-- The words for a role. -/
def Role.words : Role → String
  | .table => "table"
  | .field => "field"
  | .filterColumn => "filter column"
  | .sortField => "sort field"

/-- A name that cannot stand in a statement. -/
structure BadName where
  role : Role
  name : String
  flaw : Identifier.Flaw

/-- The text of the refusal. -/
def BadName.message (b : BadName) : String :=
  s!"Invalid SQL {b.role.words} name '{b.name}': {b.flaw.message}"

/-- A text as the name of a table or column. -/
def nameFor (role : Role) (name : String) : Except BadName Identifier :=
  (Identifier.ofString? name).mapError fun flaw => ⟨role, name, flaw⟩

/-- A name is taken as it is. -/
theorem text_of_nameFor {role : Role} {name : String} {i : Identifier}
    (h : nameFor role name = .ok i) : i.text = name := by
  unfold nameFor at h
  cases hi : Identifier.ofString? name with
  | error flaw => rw [hi] at h; cases h
  | ok j => rw [hi] at h; cases h; exact Identifier.ofString?_eq_ok_iff.1 hi

end RequestQuery.Sql
