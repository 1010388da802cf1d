import RequestQuery.Sql.Identifier

/-!
# Names that stand without quotes

Which texts are identifiers, said of their characters alone. A letter of ASCII or an underscore may
stand anywhere in a name and a digit anywhere but first (`Identifier.MayFollow`); a name has 63
characters at most. The check counts octets and looks at the first character apart from the others.
It comes to the same, since every character before the first one that has no place takes one octet.

* `Identifier.mayBegin_or_exists`: a text may begin a name, or has a first character with no place.
* `Identifier.Verdict`: what is to be said of a text; `Identifier.exists_verdict`: there is always
  something to say.
* `Identifier.flaw?_eq_iff_verdict`: the check says it, and nothing else.
-/

namespace RequestQuery.Sql.Identifier

open Utf8 (widthOf width)

/-! ## The places of characters -/

/-- A letter of ASCII or an underscore. -/
def IsLetter (c : Char) : Prop := 'A' ≤ c ∧ c ≤ 'Z' ∨ 'a' ≤ c ∧ c ≤ 'z' ∨ c = '_'

/-- A digit of ASCII. -/
def IsDigit (c : Char) : Prop := '0' ≤ c ∧ c ≤ '9'

/-- A character may stand in a name after the given ones: a letter anywhere, a digit not first. -/
def MayFollow (before : List Char) (c : Char) : Prop := IsLetter c ∨ IsDigit c ∧ before ≠ []

/-- A name may begin with these characters: each may follow the ones before it. -/
def MayBegin (cs : List Char) : Prop :=
  ∀ before c after, cs = before ++ c :: after → MayFollow before c

theorem isLetter_iff {c : Char} : IsLetter c ↔ Ascii.isWordStart c = true := by
  rw [Ascii.isWordStart, Bool.or_eq_true, Ascii.isAlpha_iff_toNat, beq_iff_eq, or_assoc]
  rfl

theorem isDigit_iff {c : Char} : IsDigit c ↔ c.isDigit = true :=
  Char.isDigit_iff_toNat.symm

theorem isLetter_or_isDigit_iff {c : Char} :
    IsLetter c ∨ IsDigit c ↔ Ascii.isWordChar c = true := by
  rw [isLetter_iff, isDigit_iff, Ascii.isWordStart, Ascii.isWordChar, Char.isAlphanum]
  simp only [Bool.or_eq_true, or_right_comm]

theorem mayFollow_nil {c : Char} : MayFollow [] c ↔ IsLetter c := by
  simp [MayFollow]

theorem mayFollow_cons {b c : Char} {before : List Char} :
    MayFollow (b :: before) c ↔ IsLetter c ∨ IsDigit c := by
  simp [MayFollow]

theorem mayBegin_nil : MayBegin [] := by
  intro before c after h
  simp at h

theorem mayBegin_cons {first : Char} {rest : List Char} :
    MayBegin (first :: rest) ↔ IsLetter first ∧ ∀ c ∈ rest, IsLetter c ∨ IsDigit c := by
  constructor
  · intro h
    refine ⟨mayFollow_nil.1 (h [] first rest rfl), fun c hc => ?_⟩
    obtain ⟨before, after, rfl⟩ := List.append_of_mem hc
    exact mayFollow_cons.1 (h (first :: before) c after rfl)
  · rintro ⟨hfirst, hrest⟩ (_ | ⟨b, before⟩) c after h
    · cases h
      exact mayFollow_nil.2 hfirst
    · cases h
      exact mayFollow_cons.2 (hrest c (by simp))

theorem mayBegin_cons_iff_isWord {first : Char} {rest : List Char} : MayBegin (first :: rest) ↔
    Ascii.isWordStart first = true ∧ ∀ c ∈ rest, Ascii.isWordChar c = true := by
  simp only [mayBegin_cons, isLetter_or_isDigit_iff]
  rw [isLetter_iff]

theorem mayBegin_concat {before : List Char} {c : Char} (h : MayBegin before)
    (hc : MayFollow before c) : MayBegin (before ++ [c]) := by
  cases before with
  | nil => exact mayBegin_cons.2 ⟨mayFollow_nil.1 hc, nofun⟩
  | cons first rest =>
    obtain ⟨hfirst, hrest⟩ := mayBegin_cons.1 h
    refine mayBegin_cons.2 ⟨hfirst, fun d hd => ?_⟩
    rcases List.mem_append.1 hd with hd | hd
    · exact hrest d hd
    · rw [List.mem_singleton.1 hd]
      exact mayFollow_cons.1 hc

/-- **Characters may all stand where they do, or there is a first one that may not.** -/
theorem mayBegin_or_exists {before : List Char} (h : MayBegin before) (rest : List Char) :
    MayBegin (before ++ rest) ∨ ∃ good found after, before ++ rest = good ++ found :: after ∧
      MayBegin good ∧ ¬ MayFollow good found := by
  induction rest generalizing before with
  | nil => exact .inl ((List.append_nil before).symm ▸ h)
  | cons c rest ih =>
    by_cases hc : MayFollow before c
    · rw [List.append_cons]
      exact ih (mayBegin_concat h hc)
    · exact .inr ⟨before, c, rest, rfl, h, hc⟩

/-- A name and what it begins with are as many octets as characters. -/
theorem widthOf_of_mayBegin {cs : List Char} (h : MayBegin cs) : widthOf cs = cs.length := by
  refine Utf8.widthOf_of_lt fun c hc => ?_
  obtain ⟨before, after, rfl⟩ := List.append_of_mem hc
  have hplace : IsLetter c ∨ IsDigit c := (h before c after rfl).imp_right And.left
  exact Ascii.toNat_lt_of_isWordChar (isLetter_or_isDigit_iff.1 hplace)

/-! ## The scan -/

/-- Characters of names are passed over. -/
theorem badChar?_append {before : List Char} (h : ∀ c ∈ before, Ascii.isWordChar c = true)
    (position : Nat) (rest : List Char) :
    badChar? position (before ++ rest) = badChar? (position + widthOf before) rest := by
  induction before generalizing position with
  | nil => rfl
  | cons c before ih =>
    rw [List.forall_mem_cons] at h
    rw [List.cons_append, badChar?, if_pos h.1, ih h.2, Utf8.widthOf_cons, Nat.add_assoc]

/-- A text that is not too long has no flaw if each character has its place. -/
theorem flaw?_of_mayBegin {s : String} (hs : s ≠ "") (hwidth : width s ≤ 63)
    (h : MayBegin s.toList) : flaw? s = none := by
  obtain ⟨first, rest, htext⟩ := List.exists_cons_of_ne_nil (mt String.toList_eq_nil_iff.1 hs)
  rw [htext] at h
  obtain ⟨hfirst, hrest⟩ := mayBegin_cons_iff_isWord.1 h
  have hscan : badChar? first.utf8Size rest = none := by
    rw [← List.append_nil rest, badChar?_append hrest]
    rfl
  simp only [flaw?, htext, maxWidth, if_neg (Nat.not_lt.2 hwidth), if_pos hfirst, hscan]

theorem flaw?_of_width_lt {s : String} (h : 63 < width s) :
    flaw? s = some (.tooLong (width s)) := by
  cases htext : s.toList with
  | nil =>
    rw [width, htext] at h
    cases h
  | cons first rest =>
    simp only [flaw?, htext]
    exact if_pos h

/-- The flaw of a text that is not too long is its first character with no place. -/
theorem flaw?_of_not_mayFollow {s : String} {before after : List Char} {found : Char}
    (htext : s.toList = before ++ found :: after) (hwidth : width s ≤ 63) (h : MayBegin before)
    (hfound : ¬ MayFollow before found) :
    flaw? s = some (.badCharacter (widthOf before) found) := by
  cases before with
  | nil =>
    rw [mayFollow_nil, isLetter_iff] at hfound
    simp only [flaw?, htext, List.nil_append, maxWidth, if_neg (Nat.not_lt.2 hwidth), if_neg hfound]
    rfl
  | cons first rest =>
    obtain ⟨hfirst, hrest⟩ := mayBegin_cons_iff_isWord.1 h
    rw [mayFollow_cons, isLetter_or_isDigit_iff] at hfound
    simp only [flaw?, htext, List.cons_append, maxWidth, if_neg (Nat.not_lt.2 hwidth),
      if_pos hfirst, badChar?_append hrest, badChar?, if_neg hfound, Utf8.widthOf_cons]

/-! ## Verdicts -/

/-- `Verdict s flaw`: what is to be said of a text as a name. -/
inductive Verdict (s : String) : Option Flaw → Prop where
  /-- A letter is followed by at most 62 letters and digits. -/
  | plain {first : Char} {rest : List Char} : s.toList = first :: rest → IsLetter first →
    rest.length ≤ 62 → (∀ c ∈ rest, IsLetter c ∨ IsDigit c) → Verdict s none
  | empty : s = "" → Verdict s (some .empty)
  /-- There are more than 63 octets, whatever they are. -/
  | tooLong : 63 < s.utf8ByteSize → Verdict s (some (.tooLong s.utf8ByteSize))
  /-- All characters before the one found may stand where they do, and this one may not. Its
  position is the number of octets before it. -/
  | badCharacter {before after : String} {found : Char} :
    s = before ++ String.singleton found ++ after → s.utf8ByteSize ≤ 63 →
    MayBegin before.toList → ¬ MayFollow before.toList found →
    Verdict s (some (.badCharacter before.utf8ByteSize found))

theorem flaw?_of_verdict {s : String} {verdict : Option Flaw} (h : Verdict s verdict) :
    flaw? s = verdict := by
  cases h with
  | @plain first rest htext hfirst hlength hrest =>
    have hbegin : MayBegin s.toList := htext ▸ mayBegin_cons.2 ⟨hfirst, hrest⟩
    have hwidth : width s ≤ 63 := by
      rw [width, widthOf_of_mayBegin hbegin, htext]
      exact Nat.succ_le_succ hlength
    refine flaw?_of_mayBegin ?_ hwidth hbegin
    rintro rfl
    cases htext
  | empty hs =>
    subst hs
    rfl
  | tooLong hsize =>
    rw [← Utf8.width_eq_utf8ByteSize] at hsize ⊢
    exact flaw?_of_width_lt hsize
  | @badCharacter before after found hs hsize hbefore hfound =>
    rw [← Utf8.width_eq_utf8ByteSize] at hsize ⊢
    have htext : s.toList = before.toList ++ found :: after.toList := by simp [hs]
    exact flaw?_of_not_mayFollow htext hsize hbefore hfound

/-- **There is something to say of every text.** -/
theorem exists_verdict (s : String) : ∃ verdict, Verdict s verdict := by
  by_cases hs : s = ""
  · exact ⟨_, .empty hs⟩
  by_cases hsize : 63 < s.utf8ByteSize
  · exact ⟨_, .tooLong hsize⟩
  rw [Nat.not_lt] at hsize
  obtain h | ⟨good, found, after, htext, hgood, hfound⟩ :=
    mayBegin_or_exists mayBegin_nil s.toList
  · rw [List.nil_append] at h
    obtain ⟨first, rest, htext⟩ := List.exists_cons_of_ne_nil (mt String.toList_eq_nil_iff.1 hs)
    have hlength : s.toList.length ≤ 63 := by
      rwa [← widthOf_of_mayBegin h, ← width, Utf8.width_eq_utf8ByteSize]
    rw [htext] at h hlength
    obtain ⟨hfirst, hrest⟩ := mayBegin_cons.1 h
    exact ⟨_, .plain htext hfirst (Nat.le_of_succ_le_succ hlength) hrest⟩
  · have hs : s = String.ofList good ++ String.singleton found ++ String.ofList after :=
      String.toList_inj.1 (by simpa using htext)
    refine ⟨_, .badCharacter hs hsize ?_ ?_⟩ <;> rwa [String.toList_ofList]

/-- **The check of a name says exactly what is to be said.** A text is an identifier exactly when it
is a letter of ASCII or an underscore with at most 62 letters, digits and underscores behind it. Of
every other text the flaw is that it is empty, else that it has more than 63 octets, and how many,
else the first character that may not stand where it does, and how many octets are before it. -/
theorem flaw?_eq_iff_verdict (s : String) (verdict : Option Flaw) :
    flaw? s = verdict ↔ Verdict s verdict := by
  refine ⟨?_, flaw?_of_verdict⟩
  rintro rfl
  obtain ⟨verdict, h⟩ := exists_verdict s
  rwa [flaw?_of_verdict h]

/-- An accented letter has no place and two octets; a digit has no place at the beginning only. -/
example : flaw? "naïve_é" = some (.badCharacter 2 'ï') ∧ flaw? "a1é" = some (.badCharacter 2 'é') ∧
    flaw? "1a" = some (.badCharacter 0 '1') := by
  decide

end RequestQuery.Sql.Identifier
