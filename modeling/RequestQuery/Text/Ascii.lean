/-!
# Letters, digits and words in ASCII

The classes of characters that names and keywords are made of. All of them are ASCII: an accented
letter or a digit of another script is in none, wherever it appears.

* `isWordStart`, `isWordChar`: the characters that begin and continue a name.
* `isWord`: a text of such characters.
* `sameLetters`: two texts are equal up to the case of ASCII letters.
-/

namespace RequestQuery.Ascii

/-- The characters that may begin a name: an ASCII letter or an underscore. -/
def isWordStart (c : Char) : Bool := c.isAlpha || c == '_'

/-- The characters that may continue a name: an ASCII letter, a digit or an underscore. -/
def isWordChar (c : Char) : Bool := c.isAlphanum || c == '_'

theorem isWordChar_of_isWordStart {c : Char} (h : isWordStart c = true) : isWordChar c = true := by
  simp only [isWordStart, isWordChar, Char.isAlphanum, Bool.or_eq_true] at *
  exact h.elim (fun h => .inl (.inl h)) .inr

/-- Whether a text is a word: a letter or an underscore, then letters, digits and underscores. -/
def isWord (s : String) : Bool :=
  match s.toList with
  | [] => false
  | c :: cs => isWordStart c && cs.all isWordChar

theorem isWord_iff {s : String} : isWord s = true ↔
    ∃ c cs, s.toList = c :: cs ∧ isWordStart c = true ∧ ∀ d ∈ cs, isWordChar d = true := by
  unfold isWord
  cases s.toList with
  | nil => exact ⟨nofun, nofun⟩
  | cons c cs =>
    rw [Bool.and_eq_true, List.all_eq_true]
    refine ⟨fun h => ⟨c, cs, rfl, h⟩, ?_⟩
    rintro ⟨c', cs', he, h⟩
    cases he
    exact h

/-- A digit may continue a name. -/
theorem isWordChar_of_isDigit {c : Char} (h : c.isDigit = true) : isWordChar c = true := by
  rw [isWordChar, Char.isAlphanum, h, Bool.or_true, Bool.true_or]

/-- The letters are two ranges of ASCII. -/
theorem isAlpha_iff_toNat {c : Char} : c.isAlpha = true ↔
    (65 ≤ c.toNat ∧ c.toNat ≤ 90) ∨ (97 ≤ c.toNat ∧ c.toNat ≤ 122) := by
  change (decide ('A'.val ≤ c.val ∧ c.val ≤ 'Z'.val) ||
    (decide ('a'.val ≤ c.val) && decide (c.val ≤ 'z'.val))) = true ↔ _
  rw [Bool.or_eq_true, Bool.and_eq_true, decide_eq_true_iff, decide_eq_true_iff, decide_eq_true_iff]
  rfl

/-- The characters of names are ASCII. -/
theorem toNat_lt_of_isWordChar {c : Char} (h : isWordChar c = true) : c.toNat < 0x80 := by
  rw [isWordChar, Char.isAlphanum, Bool.or_eq_true, Bool.or_eq_true, isAlpha_iff_toNat,
    Char.isDigit_iff_toNat, beq_iff_eq] at h
  obtain (h | h) | rfl := h
  · omega
  · exact Nat.lt_of_le_of_lt h.2 (by decide)
  · decide

/-- A digit does not begin a name. -/
theorem isDigit_eq_false_of_isWordStart {c : Char} (h : isWordStart c = true) :
    c.isDigit = false := by
  refine Bool.eq_false_iff.2 fun hdigit => ?_
  have hrange : 48 ≤ c.toNat ∧ c.toNat ≤ 57 := Char.isDigit_iff_toNat.1 hdigit
  rw [isWordStart, Bool.or_eq_true, isAlpha_iff_toNat, beq_iff_eq] at h
  rcases h with h | rfl
  · omega
  · exact absurd hrange.2 (by decide)

/-- Equality of texts that ignores the case of ASCII letters and nothing else. -/
def sameLetters (s t : String) : Bool :=
  s.toList.map Char.toLower == t.toList.map Char.toLower

@[simp] theorem sameLetters_self (s : String) : sameLetters s s = true := by
  simp [sameLetters]

theorem sameLetters_iff {s t : String} :
    sameLetters s t = true ↔ s.toList.map Char.toLower = t.toList.map Char.toLower := by
  simp [sameLetters]

/-- Two texts that equal a third one up to case equal each other. -/
theorem sameLetters_of_sameLetters {s t u : String} (ht : sameLetters s t = true)
    (hu : sameLetters s u = true) : sameLetters t u = true :=
  sameLetters_iff.2 ((sameLetters_iff.1 ht).symm.trans (sameLetters_iff.1 hu))

/-- A text that equals one of two different texts up to case does not equal the other. -/
theorem sameLetters_eq_false {s t u : String} (h : sameLetters s t = true)
    (hne : sameLetters t u = false) : sameLetters s u = false :=
  Bool.eq_false_iff.2 fun hu => Bool.eq_false_iff.1 hne (sameLetters_of_sameLetters h hu)

/-- The value of a hexadecimal digit, in either case. -/
def hexValue? (c : Char) : Option Nat :=
  if c.isDigit then some (c.toNat - '0'.toNat)
  else if 'a' ≤ c ∧ c ≤ 'f' then some (c.toNat - 'a'.toNat + 10)
  else if 'A' ≤ c ∧ c ≤ 'F' then some (c.toNat - 'A'.toNat + 10)
  else none

/-- A hexadecimal digit has a value below sixteen. -/
theorem hexValue?_lt {c : Char} {n : Nat} (h : hexValue? c = some n) : n < 16 := by
  have hle : ∀ {a b : Char}, a ≤ b → a.toNat ≤ b.toNat := fun h => h
  unfold hexValue? at h
  split at h
  · next hd =>
    simp only [Char.isDigit, Bool.and_eq_true, decide_eq_true_eq] at hd
    have : c.toNat ≤ '9'.toNat := hd.2
    simp at h this; omega
  · split at h
    · next hd => have := hle hd.2; simp at h this; omega
    · split at h
      · next hd => have := hle hd.2; simp at h this; omega
      · cases h

end RequestQuery.Ascii
