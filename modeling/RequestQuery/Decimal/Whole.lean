/-!
# Whole numbers in decimal

* `readNat? ds`: the number that ASCII digits write; nothing for no digits or another character.
* `readInt? cs`: the same after an optional single sign.
* `readInt64? cs`: the same within the 64-bit integers; a number outside is refused, never wrapped.
-/

namespace RequestQuery.Decimal

/-- The number that ASCII digits write. -/
def readNat? (ds : List Char) : Option Nat :=
  if !ds.isEmpty && ds.all Char.isDigit then some (Nat.ofDigitChars 10 ds 0) else none

theorem readNat?_eq_some_iff {ds : List Char} {n : Nat} : readNat? ds = some n ↔
    ds ≠ [] ∧ (∀ c ∈ ds, c.isDigit = true) ∧ Nat.ofDigitChars 10 ds 0 = n := by
  unfold readNat?
  split
  · next h =>
    simp only [Bool.and_eq_true, Bool.not_eq_true', List.isEmpty_eq_false_iff,
      List.all_eq_true] at h
    exact Option.some_inj.trans ⟨fun he => ⟨h.1, h.2, he⟩, fun he => he.2.2⟩
  · next h =>
    simp only [Bool.and_eq_true, Bool.not_eq_true', List.isEmpty_eq_false_iff,
      List.all_eq_true] at h
    exact ⟨nofun, fun he => absurd ⟨he.1, he.2.1⟩ h⟩

/-- The number that an optional sign and ASCII digits write. -/
def readInt? : List Char → Option Int
  | '-' :: ds => (readNat? ds).map fun n => -(n : Int)
  | '+' :: ds => (readNat? ds).map fun n => (n : Int)
  | ds => (readNat? ds).map fun n => (n : Int)

/-- The least 64-bit integer. -/
def minInt64 : Int := -9223372036854775808

/-- The greatest 64-bit integer. -/
def maxInt64 : Int := 9223372036854775807

/-- An integer as a 64-bit one, if it is in range. -/
def toInt64? (n : Int) : Option Int64 :=
  if minInt64 ≤ n ∧ n ≤ maxInt64 then some (Int64.ofInt n) else none

/-- The 64-bit integer that an optional sign and ASCII digits write, if it is in range. -/
def readInt64? (cs : List Char) : Option Int64 := (readInt? cs).bind toInt64?

/-- What is written for a number is read back. -/
theorem readNat?_toDigits (n : Nat) : readNat? (Nat.toDigits 10 n) = some n := by
  have hne : (Nat.toDigits 10 n).isEmpty = false := by
    simp [Nat.toDigits_ne_nil]
  have hall : (Nat.toDigits 10 n).all Char.isDigit = true :=
    List.all_eq_true.2 fun c hc => Nat.isDigit_of_mem_toDigits (by decide) (by decide) hc
  simp [readNat?, hne, hall, Nat.ofDigitChars_ten_toDigits]

/-- A 64-bit integer is in its own range. -/
theorem toInt64?_toInt (n : Int64) : toInt64? n.toInt = some n := by
  have h₁ : minInt64 ≤ n.toInt := Int64.le_toInt n
  have h₂ : n.toInt ≤ maxInt64 := Int64.toInt_le n
  rw [toInt64?, if_pos ⟨h₁, h₂⟩, Int64.ofInt_toInt]

/-- An integer in range is taken as it is. -/
theorem toInt64?_eq_some_iff {n : Int} {i : Int64} : toInt64? n = some i ↔ n = i.toInt := by
  constructor
  · intro h
    unfold toInt64? at h
    split at h
    · next hn =>
      obtain rfl := Option.some.inj h
      refine (Int64.toInt_ofInt_of_le hn.1 ?_).symm
      exact Int.lt_add_one_of_le hn.2
    · cases h
  · rintro rfl
    exact toInt64?_toInt i

theorem toInt64?_eq_none_iff {n : Int} : toInt64? n = none ↔ ¬ (minInt64 ≤ n ∧ n ≤ maxInt64) := by
  simp [toInt64?]

end RequestQuery.Decimal
