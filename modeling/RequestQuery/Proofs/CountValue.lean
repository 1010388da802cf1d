import RequestQuery.Proofs.LoadRun

/-!
# Counts

When a database's answer to a count is taken for a number: a value counts `n` when it is that
integer or writes it in decimal, with an optional plus sign and blanks around it (`Json.Counts`),
and a count succeeds exactly when the first row of the answer has a count column with such a value
(`Load.run_count_of_ok`).
-/

namespace RequestQuery

/-- A value counts `n`, of 64 bits: it is the integer, or the decimal text of it. -/
inductive Json.Counts : Json → Nat → Prop
  | int {n : Nat} : n < UInt64.size → Counts (.int n) n
  | text {n : Nat} {before sign digits after : List Char} :
      (∀ c ∈ before, Text.isBlank c = true) → (sign = [] ∨ sign = ['+']) → digits ≠ [] →
        (∀ c ∈ digits, c.isDigit = true) → (∀ c ∈ after, Text.isBlank c = true) →
          Nat.ofDigitChars 10 digits 0 = n → n < UInt64.size →
            Counts (.text (String.ofList (before ++ (sign ++ digits) ++ after))) n

theorem toUInt64?_eq_some_iff {n : Int} {c : UInt64} : toUInt64? n = some c ↔ n = c.toNat := by
  unfold toUInt64?
  constructor
  · intro h
    split at h
    · next hn =>
      obtain rfl := Option.some.inj h
      rw [UInt64.toNat_ofNat_of_lt' (by omega)]
      omega
    · cases h
  · rintro rfl
    have hc := c.toNat_lt_size
    rw [if_pos (by omega), Int.toNat_natCast, UInt64.ofNat_toNat]

theorem readCount?_eq_some_iff {cs : List Char} {n : Nat} : readCount? cs = some n ↔
    ∃ sign digits, (sign = [] ∨ sign = ['+']) ∧ cs = sign ++ digits ∧
      Decimal.readNat? digits = some n := by
  constructor
  · intro h
    unfold readCount? at h
    split at h
    · next digits => exact ⟨['+'], digits, .inr rfl, rfl, h⟩
    · exact ⟨[], cs, .inl rfl, rfl, h⟩
  · rintro ⟨_, digits, rfl | rfl, rfl, h⟩
    · -- Digits do not begin with a plus sign.
      have hdigits := (Decimal.readNat?_eq_some_iff.1 h).2.1
      change readCount? cs = some n
      rw [readCount?]
      · exact h
      · rintro rest rfl
        exact absurd (hdigits '+' List.mem_cons_self) (by decide)
    · exact h

theorem Text.isBlank_eq_false_of_isDigit {c : Char} (h : c.isDigit = true) : isBlank c = false := by
  simp only [Char.isDigit, Bool.and_eq_true, decide_eq_true_eq] at h
  have hn : 48 ≤ c.toNat ∧ c.toNat ≤ 57 := h
  simp only [isBlank, Bool.or_eq_false_iff, Bool.and_eq_false_iff, decide_eq_false_iff_not,
    beq_eq_false_iff_ne]
  omega

/-- A sign and digits have no blanks at their ends. -/
theorem trimChars_signed {before sign digits after : List Char}
    (hbefore : ∀ c ∈ before, Text.isBlank c = true) (hsign : sign = [] ∨ sign = ['+'])
    (hne : digits ≠ []) (hdigits : ∀ c ∈ digits, c.isDigit = true)
    (hafter : ∀ c ∈ after, Text.isBlank c = true) :
    Text.trimChars (before ++ (sign ++ digits) ++ after) = sign ++ digits := by
  have hblank : ∀ c ∈ sign ++ digits, Text.isBlank c = false := by
    intro c hc
    rcases List.mem_append.1 hc with hc | hc
    · rcases hsign with rfl | rfl
      · cases hc
      · obtain rfl := List.mem_singleton.1 hc
        rfl
    · exact Text.isBlank_eq_false_of_isDigit (hdigits c hc)
  exact Text.trimChars_append_of_forall hbefore hafter hblank
    (List.append_ne_nil_of_right_ne_nil _ hne)

/-- **A count column is read as the number that its value counts.** -/
theorem countValue?_eq_some_iff {j : Json} {c : UInt64} :
    countValue? j = some c ↔ j.Counts c.toNat := by
  constructor
  · intro h
    unfold countValue? at h
    split at h
    · obtain rfl := toUInt64?_eq_some_iff.1 h
      exact .int c.toNat_lt_size
    · next s =>
      obtain ⟨n, hread, hn⟩ := Option.bind_eq_some_iff.1 h
      obtain rfl : n = c.toNat := Int.natCast_inj.1 (toUInt64?_eq_some_iff.1 hn)
      obtain ⟨sign, digits, hsign, htrim, hdigits⟩ := readCount?_eq_some_iff.1 hread
      obtain ⟨hne, hall, hvalue⟩ := Decimal.readNat?_eq_some_iff.1 hdigits
      obtain ⟨before, after, hbefore, hafter, hs⟩ := Text.exists_eq_append_trimChars s.toList
      rw [← Text.toList_trim, htrim] at hs
      rw [← String.ofList_toList (s := s), hs]
      exact .text hbefore hsign hne hall hafter hvalue c.toNat_lt_size
    · cases h
  · intro h
    cases h with
    | int hn => exact toUInt64?_eq_some_iff.2 rfl
    | @text n before sign digits after hbefore hsign hne hall hafter hvalue hn =>
      have hread : readCount? (sign ++ digits) = some c.toNat :=
        readCount?_eq_some_iff.2 ⟨sign, digits, hsign, rfl,
          Decimal.readNat?_eq_some_iff.2 ⟨hne, hall, hvalue⟩⟩
      rw [countValue?, Text.toList_trim, String.toList_ofList,
        trimChars_signed hbefore hsign hne hall hafter, hread, Option.bind_some,
        toUInt64?_eq_some_iff]

theorem Json.Counts.lt_size {j : Json} {n : Nat} (h : j.Counts n) : n < UInt64.size := by
  cases h with
  | int hn => exact hn
  | text _ _ _ _ _ _ hn => exact hn

/-- The first row of an answer has a count column with a value that counts. -/
def Counted (rows : List Row) : Prop :=
  ∃ row value n, rows.head? = some row ∧ Entries.get? "count" row = some value ∧
    Json.Counts value n

theorem exists_countValue?_iff {rows : List Row} :
    (∃ c, (rows.head?.bind (Entries.get? "count")).bind countValue? = some c) ↔ Counted rows := by
  simp only [Option.bind_eq_some_iff, countValue?_eq_some_iff]
  constructor
  · rintro ⟨c, value, ⟨row, hrow, hvalue⟩, hcounts⟩
    exact ⟨row, value, c.toNat, hrow, hvalue, hcounts⟩
  · rintro ⟨row, value, n, hrow, hvalue, hcounts⟩
    refine ⟨UInt64.ofNat n, value, ⟨row, hrow, hvalue⟩, ?_⟩
    rwa [UInt64.toNat_ofNat_of_lt' hcounts.lt_size]

/-! ## Asking for a count -/

namespace Load

variable {σ ε : Type} {db : Database σ ε} {q : Sql.Query} {after : σ}

/-- **A count that the database answers is one statement, and gives a number when the answer
counts.** -/
theorem run_count_of_ok (session : Session σ) {rows : List Row}
    (h : db.answer q.count session.state = (.ok rows, after)) :
    ∃ result, (count db q).run session = (result, ⟨after, session.asked ++ [q.count]⟩) ∧
      ((∃ c, result = .ok c) ↔ Counted rows) := by
  have hask : (ask db q.count).run session = (.ok rows, ⟨after, session.asked ++ [q.count]⟩) := by
    rw [run_ask, h]
    rfl
  unfold count
  rw [run_bind, hask, ← exists_countValue?_iff]
  simp only
  cases (rows.head?.bind (Entries.get? "count")).bind countValue? with
  | none => exact ⟨_, rfl, nofun, nofun⟩
  | some c => exact ⟨_, rfl, fun _ => ⟨c, rfl⟩, fun _ => ⟨c, rfl⟩⟩

theorem run_count_of_error (session : Session σ) {failure : ε}
    (h : db.answer q.count session.state = (.error failure, after)) :
    (count db q).run session =
      (.error (.database failure), ⟨after, session.asked ++ [q.count]⟩) := by
  unfold count
  rw [run_bind, run_ask, h]
  rfl

end Load

end RequestQuery
