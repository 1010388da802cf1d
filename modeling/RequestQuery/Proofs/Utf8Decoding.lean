import Mathlib.Algebra.GroupWithZero.Nat
import RequestQuery.Text.Utf8

/-!
# Reading UTF-8

The decoder reads back what the encoder writes, and what it replaces does not make a text shorter.

* `decode_encode`: the octets of a text are decoded as that text.
* `le_of_mem_encodeChar`: a character that is not ASCII takes no octet of ASCII.
* `Pending.Begun`, `Machine.Weighs`: how many octets a started character has and will have, and how
  many octets everything that was read takes.
* `length_le_widthOf_decode`: a decoded text takes at least as many octets as it was decoded from,
  and at most three times as many.
-/

namespace RequestQuery.Utf8

/-! ## The octets of a character -/

@[simp] theorem encode_nil : encode [] = [] := rfl

theorem encode_cons (c : Char) (cs : List Char) :
    encode (c :: cs) = String.utf8EncodeChar c ++ encode cs := List.flatMap_cons

theorem encode_append (cs ds : List Char) : encode (cs ++ ds) = encode cs ++ encode ds :=
  List.flatMap_append

/-- A character of ASCII is its own octet. -/
theorem encodeChar_of_lt {c : Char} (h : c.toNat < 0x80) :
    String.utf8EncodeChar c = [UInt8.ofNat c.toNat] :=
  if_pos (Nat.le_of_lt_succ h)

/-- Every octet of another character is no character of ASCII. -/
theorem le_of_mem_encodeChar {c : Char} (h : 0x80 ≤ c.toNat) :
    ∀ octet ∈ String.utf8EncodeChar c, 0x80 ≤ octet.toNat := by
  have hc : ¬ c.val.toNat ≤ 0x7F := Nat.not_le.2 h
  have hmore (n : Nat) (hn : 0x80 ≤ n) (hn' : n < 256) : 0x80 ≤ (UInt8.ofNat n).toNat := by
    rwa [UInt8.toNat_ofNat_of_lt' hn']
  intro octet hmem
  unfold String.utf8EncodeChar at hmem
  simp only [if_neg hc] at hmem
  split at hmem
  · simp only [List.mem_cons, List.not_mem_nil, or_false] at hmem
    rcases hmem with rfl | rfl <;> exact hmore _ (by omega) (by omega)
  · split at hmem
    · simp only [List.mem_cons, List.not_mem_nil, or_false] at hmem
      rcases hmem with rfl | rfl | rfl <;> exact hmore _ (by omega) (by omega)
    · simp only [List.mem_cons, List.not_mem_nil, or_false] at hmem
      rcases hmem with rfl | rfl | rfl | rfl <;> exact hmore _ (by omega) (by omega)

/-! ## Reading back -/

theorem lead_two {b : Nat} (hlow : 0xC2 ≤ b) (hhigh : b ≤ 0xDF) :
    lead b = .more ⟨1, 0x80, 0xBF, b - 0xC0⟩ := by
  rw [lead, if_neg (by omega), if_pos ⟨hlow, hhigh⟩]

theorem lead_three {b : Nat} (hlow : 0xE1 ≤ b) (hhigh : b ≤ 0xEF) (hb : b ≠ 0xED) :
    lead b = .more ⟨2, 0x80, 0xBF, b - 0xE0⟩ := by
  rw [lead, if_neg (by omega), if_neg (by omega), if_neg (by omega), if_neg hb,
    if_pos ⟨hlow, hhigh⟩]

theorem lead_four {b : Nat} (hlow : 0xF1 ≤ b) (hhigh : b ≤ 0xF3) :
    lead b = .more ⟨3, 0x80, 0xBF, b - 0xF0⟩ := by
  rw [lead, if_neg (by omega), if_neg (by omega), if_neg (by omega), if_neg (by omega),
    if_neg (by omega), if_neg (by omega), if_pos ⟨hlow, hhigh⟩]

/-- A continuation octet within the bounds, when more are needed after it. -/
theorem step_more {done : List Char} {low high code b needed : Nat} (hlow : low ≤ b)
    (hhigh : b ≤ high) (hb : b < 256) (hneeded : 1 ≤ needed) :
    Machine.step ⟨done, some ⟨needed + 1, low, high, code⟩⟩ (UInt8.ofNat b) =
      ⟨done, some ⟨needed, 0x80, 0xBF, code * 64 + (b - 0x80)⟩⟩ := by
  simp only [Machine.step, UInt8.toNat_ofNat_of_lt' hb]
  rw [if_pos ⟨hlow, hhigh⟩, if_neg (by omega), Nat.add_sub_cancel]

/-- The last continuation octet of a character. -/
theorem step_last {done : List Char} {low high code b : Nat} (hlow : low ≤ b) (hhigh : b ≤ high)
    (hb : b < 256) :
    Machine.step ⟨done, some ⟨1, low, high, code⟩⟩ (UInt8.ofNat b) =
      ⟨Char.ofNat (code * 64 + (b - 0x80)) :: done, none⟩ := by
  simp only [Machine.step, UInt8.toNat_ofNat_of_lt' hb]
  rw [if_pos ⟨hlow, hhigh⟩, if_pos (Nat.le_refl 1)]

/-- The first octet of a character of several octets. -/
theorem step_lead {done : List Char} {b : Nat} {p : Pending} (h : lead b = .more p) (hb : b < 256) :
    Machine.step ⟨done, none⟩ (UInt8.ofNat b) = ⟨done, some p⟩ := by
  simp only [Machine.step, UInt8.toNat_ofNat_of_lt' hb, Machine.start, h]

/-- What the first octet of a character of three octets begins, for the number `v` of the
character. -/
theorem exists_lead_three {v : Nat} (hlow : 0x800 ≤ v) (hhigh : v < 0xD800 ∨ 0xE000 ≤ v)
    (hv : v < 0x10000) : ∃ low high, lead (v / 4096 % 16 + 0xE0) = .more ⟨2, low, high, v / 4096⟩ ∧
      low ≤ v / 64 % 64 + 0x80 ∧ v / 64 % 64 + 0x80 ≤ high := by
  have hmod : v / 4096 % 16 = v / 4096 := Nat.mod_eq_of_lt (by omega)
  rw [hmod]
  by_cases h0 : v / 4096 = 0
  · rw [h0]
    exact ⟨0xA0, 0xBF, rfl, by omega, by omega⟩
  · by_cases h13 : v / 4096 = 13
    · rw [h13]
      exact ⟨0x80, 0x9F, rfl, by omega, by omega⟩
    · refine ⟨0x80, 0xBF, ?_, by omega, by omega⟩
      rw [lead_three (by omega) (by omega) (by omega), Nat.add_sub_cancel]

/-- What the first octet of a character of four octets begins. -/
theorem exists_lead_four {v : Nat} (hlow : 0x10000 ≤ v) (hv : v < 0x110000) :
    ∃ low high, lead (v / 262144 % 8 + 0xF0) = .more ⟨3, low, high, v / 262144⟩ ∧
      low ≤ v / 4096 % 64 + 0x80 ∧ v / 4096 % 64 + 0x80 ≤ high := by
  have hmod : v / 262144 % 8 = v / 262144 := Nat.mod_eq_of_lt (by omega)
  rw [hmod]
  by_cases h0 : v / 262144 = 0
  · rw [h0]
    exact ⟨0x90, 0xBF, rfl, by omega, by omega⟩
  · by_cases h4 : v / 262144 = 4
    · rw [h4]
      exact ⟨0x80, 0x8F, rfl, by omega, by omega⟩
    · refine ⟨0x80, 0xBF, ?_, by omega, by omega⟩
      rw [lead_four (by omega) (by omega), Nat.add_sub_cancel]

/-- **The octets of a character are read as that character**, whatever was read before it. -/
theorem foldl_step_encodeChar (done : List Char) (c : Char) :
    (String.utf8EncodeChar c).foldl Machine.step ⟨done, none⟩ = ⟨c :: done, none⟩ := by
  have hvalid : c.val.toNat < 0xD800 ∨ 0xDFFF < c.val.toNat ∧ c.val.toNat < 0x110000 := c.valid
  have hc : Char.ofNat c.val.toNat = c := Char.ofNat_toNat c
  unfold String.utf8EncodeChar
  generalize c.val.toNat = v at hvalid hc
  simp only
  split
  · rw [List.foldl_cons, List.foldl_nil, Machine.step,
      UInt8.toNat_ofNat_of_lt' (show v < 256 by omega)]
    simp only [Machine.start, lead, if_pos (show v < 0x80 by omega), hc]
  · split
    · have hlead := lead_two (b := v / 64 % 32 + 0xC0) (by omega) (by omega)
      simp only [List.foldl_cons, List.foldl_nil]
      rw [step_lead hlead (by omega), step_last (by omega) (by omega) (by omega)]
      rw [show (v / 64 % 32 + 0xC0 - 0xC0) * 64 + (v % 64 + 0x80 - 0x80) = v by omega, hc]
    · split
      · obtain ⟨low, high, hlead, hl, hh⟩ :=
          exists_lead_three (v := v) (by omega) (by omega) (by omega)
        simp only [List.foldl_cons, List.foldl_nil]
        rw [step_lead hlead (by omega), step_more hl hh (by omega) (Nat.le_refl 1),
          step_last (by omega) (by omega) (by omega)]
        rw [show (v / 4096 * 64 + (v / 64 % 64 + 0x80 - 0x80)) * 64 + (v % 64 + 0x80 - 0x80) = v by
          omega, hc]
      · obtain ⟨low, high, hlead, hl, hh⟩ := exists_lead_four (v := v) (by omega) (by omega)
        simp only [List.foldl_cons, List.foldl_nil]
        rw [step_lead hlead (by omega), step_more hl hh (by omega) (by omega),
          step_more (by omega) (by omega) (by omega) (Nat.le_refl 1),
          step_last (by omega) (by omega) (by omega)]
        rw [show ((v / 262144 * 64 + (v / 4096 % 64 + 0x80 - 0x80)) * 64 +
          (v / 64 % 64 + 0x80 - 0x80)) * 64 + (v % 64 + 0x80 - 0x80) = v by omega, hc]

theorem foldl_step_encode (cs done : List Char) :
    (encode cs).foldl Machine.step ⟨done, none⟩ = ⟨cs.reverse ++ done, none⟩ := by
  induction cs generalizing done with
  | nil => rfl
  | cons c cs ih =>
    rw [encode, List.flatMap_cons, List.foldl_append, foldl_step_encodeChar]
    rw [show List.flatMap _ cs = encode cs from rfl, ih, List.reverse_cons, List.append_assoc]
    rfl

/-- **What was encoded is decoded.** -/
theorem decode_encode (cs : List Char) : decode (encode cs) = cs := by
  rw [decode, foldl_step_encode, List.append_nil]
  exact List.reverse_reverse cs

/-! ## Widths -/

theorem toNat_ofNat {n : Nat} (h : n.isValidChar) : (Char.ofNat n).toNat = n := by
  rw [Char.ofNat, dif_pos h]
  rfl

/-- The number of octets of the character with a number. -/
theorem utf8Size_ofNat {n : Nat} (h : n.isValidChar) : (Char.ofNat n).utf8Size =
    if n < 0x80 then 1 else if n < 0x800 then 2 else if n < 0x10000 then 3 else 4 := by
  have hval : (Char.ofNat n).val.toNat = n := toNat_ofNat h
  rw [← String.length_utf8EncodeChar, String.utf8EncodeChar]
  simp only [hval, apply_ite List.length, List.length_cons, List.length_nil, Nat.le_iff_lt_add_one,
    Nat.reduceAdd]

/-- A character that was begun with `read` octets: the bounds on the next one are those of a
continuation octet or narrower, and whatever number comes out in the end is that of a character with
as many octets as were read and are needed. -/
structure Pending.Begun (read : Nat) (p : Pending) : Prop where
  read_pos : 1 ≤ read
  needed_pos : 1 ≤ p.needed
  length_le : read + p.needed ≤ 4
  low_ge : 0x80 ≤ p.low
  size_eq : ∀ n, (p.code * 64 + (p.low - 0x80)) * 64 ^ (p.needed - 1) ≤ n →
    n < (p.code * 64 + (p.high - 0x80) + 1) * 64 ^ (p.needed - 1) →
      (Char.ofNat n).utf8Size = read + p.needed

/-- The first octet of a longer character begins it. -/
theorem begun_of_lead {b : Nat} {p : Pending} (h : lead b = .more p) : p.Begun 1 := by
  have hsize {needed low high code : Nat} (hneeded : 1 ≤ needed ∧ needed ≤ 3) (hlow : 0x80 ≤ low)
      (hn : ∀ n, (code * 64 + (low - 0x80)) * 64 ^ (needed - 1) ≤ n →
        n < (code * 64 + (high - 0x80) + 1) * 64 ^ (needed - 1) → n.isValidChar ∧
          (if n < 0x80 then 1 else if n < 0x800 then 2 else if n < 0x10000 then 3 else 4) =
            1 + needed) : Pending.Begun 1 ⟨needed, low, high, code⟩ :=
    ⟨Nat.le_refl 1, hneeded.1, by simp only; omega, hlow, fun n hl hh => by
      rw [utf8Size_ofNat (hn n hl hh).1, (hn n hl hh).2]⟩
  unfold lead at h
  repeat' split at h
  all_goals cases h
  all_goals
    refine hsize (by decide) (by decide) fun n hlow hhigh => ?_
    simp only [Nat.reduceSub, Nat.reducePow] at hlow hhigh
    refine ⟨by unfold Nat.isValidChar; omega, ?_⟩
    repeat' split
    all_goals omega

/-- One more octet of a character that needs more after it. -/
theorem Pending.Begun.next {read : Nat} {p : Pending} (h : p.Begun read) {b : Nat}
    (hlow : p.low ≤ b) (hhigh : b ≤ p.high) (hneeded : 1 < p.needed) :
    Pending.Begun (read + 1) ⟨p.needed - 1, 0x80, 0xBF, p.code * 64 + (b - 0x80)⟩ := by
  have hlength := h.length_le
  have hge := h.low_ge
  obtain ⟨k, hk⟩ : ∃ k, p.needed = k + 2 := ⟨p.needed - 2, by omega⟩
  refine ⟨Nat.succ_pos read, by simp only; omega, by simp only; omega, Nat.le_refl _,
    fun n hl hh => ?_⟩
  simp only [hk, Nat.reduceSubDiff, Nat.add_sub_cancel, Nat.sub_self, Nat.add_zero] at hl hh ⊢
  have hpow : 64 * 64 ^ k = 64 ^ (k + 1) := (Nat.pow_succ' ..).symm
  rw [h.size_eq n, hk]
  · omega
  · calc (p.code * 64 + (p.low - 0x80)) * 64 ^ (p.needed - 1)
        ≤ (p.code * 64 + (b - 0x80)) * 64 ^ (p.needed - 1) := Nat.mul_le_mul_right _ (by omega)
      _ = (p.code * 64 + (b - 0x80)) * 64 * 64 ^ k := by rw [hk, Nat.mul_assoc, hpow]; rfl
      _ ≤ n := hl
  · have hsum : (p.code * 64 + (b - 0x80)) * 64 + (0xBF - 0x80) + 1 =
        (p.code * 64 + (b - 0x80) + 1) * 64 := by omega
    calc n < ((p.code * 64 + (b - 0x80)) * 64 + (0xBF - 0x80) + 1) * 64 ^ k := hh
      _ = (p.code * 64 + (b - 0x80) + 1) * 64 ^ (p.needed - 1) := by
        rw [hsum, hk, Nat.mul_assoc, hpow]
        rfl
      _ ≤ (p.code * 64 + (p.high - 0x80) + 1) * 64 ^ (p.needed - 1) :=
        Nat.mul_le_mul_right _ (by omega)

/-- The last octet of a character. -/
theorem Pending.Begun.last {read : Nat} {p : Pending} (h : p.Begun read) {b : Nat}
    (hlow : p.low ≤ b) (hhigh : b ≤ p.high) (hneeded : p.needed ≤ 1) :
    (Char.ofNat (p.code * 64 + (b - 0x80))).utf8Size = read + 1 := by
  have hneeded' : p.needed = 1 := Nat.le_antisymm hneeded h.needed_pos
  have hge := h.low_ge
  rw [h.size_eq, hneeded']
  · rw [hneeded', Nat.sub_self, Nat.pow_zero, Nat.mul_one]
    omega
  · rw [hneeded', Nat.sub_self, Nat.pow_zero, Nat.mul_one]
    omega

/-- The machine after `n` octets: what it has read takes at least as many octets, and no more than
three times as many, where a started character counts with the octets that were read of it. -/
def Machine.Weighs (m : Machine) (n : Nat) : Prop :=
  match m.pending with
  | none => n ≤ widthOf m.done ∧ widthOf m.done ≤ 3 * n
  | some p => ∃ read, p.Begun read ∧ n ≤ widthOf m.done + read ∧
      widthOf m.done + 3 * read ≤ 3 * n

theorem utf8Size_replacement : replacement.utf8Size = 3 := by decide

/-- A first octet counts as one. -/
theorem weighs_start {done : List Char} {n : Nat} (hle : n ≤ widthOf done)
    (hge : widthOf done ≤ 3 * n) (b : Nat) : (Machine.start done b).Weighs (n + 1) := by
  unfold Machine.start
  cases hl : lead b with
  | whole c =>
    have hc : c.utf8Size = 1 := by
      unfold lead at hl
      split at hl
      · next hb =>
        cases hl
        rw [utf8Size_ofNat (.inl (by omega)), if_pos hb]
      · repeat' split at hl
        all_goals cases hl
    simp only [Machine.Weighs, widthOf_cons]
    omega
  | more p => exact ⟨1, begun_of_lead hl, by simp only; omega, by simp only; omega⟩
  | stray =>
    simp only [Machine.Weighs, widthOf_cons, utf8Size_replacement]
    omega

/-- **An octet counts as one**, whatever it does. -/
theorem Machine.Weighs.step {m : Machine} {n : Nat} (h : m.Weighs n) (octet : UInt8) :
    (m.step octet).Weighs (n + 1) := by
  obtain ⟨done, pending⟩ := m
  cases pending with
  | none => exact weighs_start h.1 h.2 _
  | some p =>
    obtain ⟨read, hp, hle, hge⟩ := h
    have hread := hp.read_pos
    have hlength := hp.length_le
    have hneeded := hp.needed_pos
    simp only [Machine.step] at hle hge ⊢
    split
    · next hb =>
      split
      · next hlast =>
        simp only [Weighs, widthOf_cons, hp.last hb.1 hb.2 hlast]
        omega
      · next hmore =>
        exact ⟨read + 1, hp.next hb.1 hb.2 (Nat.lt_of_not_le hmore), by simp only; omega,
          by simp only; omega⟩
    · refine weighs_start ?_ ?_ _
      · rw [widthOf_cons, utf8Size_replacement]
        omega
      · rw [widthOf_cons, utf8Size_replacement]
        omega

theorem weighs_foldl {m : Machine} {n : Nat} (h : m.Weighs n) (octets : List UInt8) :
    (octets.foldl Machine.step m).Weighs (n + octets.length) := by
  induction octets generalizing m n with
  | nil => exact h
  | cons octet octets ih =>
    rw [List.foldl_cons, List.length_cons, Nat.add_comm octets.length, ← Nat.add_assoc]
    exact ih (h.step octet)

theorem widthOf_reverse (cs : List Char) : widthOf cs.reverse = widthOf cs := by
  induction cs with
  | nil => rfl
  | cons c cs ih => rw [List.reverse_cons, widthOf_append, ih, widthOf_cons, widthOf_cons,
      widthOf_nil, Nat.add_zero, Nat.add_comm]

/-- What a machine has read when the octets end. -/
theorem Machine.Weighs.finish {m : Machine} {n : Nat} (h : m.Weighs n) :
    n ≤ widthOf m.finish ∧ widthOf m.finish ≤ 3 * n := by
  obtain ⟨done, pending⟩ := m
  cases pending with
  | none =>
    simp only [Machine.finish, widthOf_reverse]
    exact h
  | some p =>
    obtain ⟨read, hp, hle, hge⟩ := h
    have hread := hp.read_pos
    have hlength := hp.length_le
    have hneeded := hp.needed_pos
    simp only [Machine.finish, widthOf_reverse, widthOf_cons, utf8Size_replacement] at hle hge ⊢
    omega

/-- **The text of octets takes at least as many octets as it was read from**, since replacement
characters take no less than what they replace, and no more than three times as many. -/
theorem length_le_widthOf_decode (octets : List UInt8) :
    octets.length ≤ widthOf (decode octets) ∧ widthOf (decode octets) ≤ 3 * octets.length := by
  have h : Machine.Weighs ⟨[], none⟩ 0 := ⟨Nat.le_refl 0, Nat.le_refl 0⟩
  have hfold := weighs_foldl h octets
  rw [Nat.zero_add] at hfold
  exact hfold.finish

end RequestQuery.Utf8
