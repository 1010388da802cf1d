import RequestQuery.Proofs.CountValue
import RequestQuery.Proofs.RequestBounds

/-!
# Numeric options

The page of a request is given by two whole numbers in decimal. A text of any length is read as the
number that it writes or refused: the digits are read first, as an integer without bound, and a
number that is out of range is refused before it is made one of a fixed width. So the conversion to
that width always succeeds.

* `Decimal.Writes`, `Text.WritesInteger`: the integer that a text writes, by its sign and its
  digits.
* `Options.readWhole_eq_ok_iff`: a whole number is read exactly when it is within its bounds.
* `Options.readWhole_bind_narrow`: what is within its bounds is never out of range.
* `Options.failsWith_validate`: no request is refused because a number that was read does not fit.
-/

namespace RequestQuery

open Fallible

/-! ## Integers in decimal -/

/-- Characters write an integer in decimal: at least one ASCII digit, after an optional sign. -/
inductive Decimal.Writes : List Char → Int → Prop
  | unsigned {digits : List Char} : digits ≠ [] → (∀ c ∈ digits, c.isDigit = true) →
      Writes digits (Nat.ofDigitChars 10 digits 0)
  | plus {digits : List Char} : digits ≠ [] → (∀ c ∈ digits, c.isDigit = true) →
      Writes ('+' :: digits) (Nat.ofDigitChars 10 digits 0)
  | minus {digits : List Char} : digits ≠ [] → (∀ c ∈ digits, c.isDigit = true) →
      Writes ('-' :: digits) (-(Nat.ofDigitChars 10 digits 0 : Int))

/-- A text writes an integer in decimal, with blanks around it or not. -/
def Text.WritesInteger (s : String) (n : Int) : Prop :=
  ∃ before core after : List Char, s.toList = before ++ core ++ after ∧
    (∀ c ∈ before, isBlank c = true) ∧ (∀ c ∈ after, isBlank c = true) ∧ Decimal.Writes core n

namespace Decimal

variable {cs : List Char} {n : Int}

theorem readInt?_minus (ds : List Char) :
    readInt? ('-' :: ds) = (readNat? ds).map fun m : Nat => -(m : Int) := by
  rw [readInt?]
  cases readNat? ds <;> rfl

theorem readInt?_plus (ds : List Char) :
    readInt? ('+' :: ds) = (readNat? ds).map fun m : Nat => (m : Int) := by
  rw [readInt?]
  cases readNat? ds <;> rfl

theorem readInt?_unsigned (hminus : ∀ ds, cs ≠ '-' :: ds) (hplus : ∀ ds, cs ≠ '+' :: ds) :
    readInt? cs = (readNat? cs).map fun m : Nat => (m : Int) := by
  rw [readInt?]
  · cases readNat? cs <;> rfl
  · exact hminus
  · exact hplus

/-- The digits that write a number, with what it stands for after its sign. -/
theorem map_readNat?_eq_some_iff {f : Nat → Int} : (readNat? cs).map f = some n ↔
    cs ≠ [] ∧ (∀ c ∈ cs, c.isDigit = true) ∧ f (Nat.ofDigitChars 10 cs 0) = n := by
  rw [Option.map_eq_some_iff]
  constructor
  · rintro ⟨m, hm, rfl⟩
    obtain ⟨hne, hdigits, rfl⟩ := readNat?_eq_some_iff.1 hm
    exact ⟨hne, hdigits, rfl⟩
  · rintro ⟨hne, hdigits, hn⟩
    exact ⟨_, readNat?_eq_some_iff.2 ⟨hne, hdigits, rfl⟩, hn⟩

/-- An integer is read exactly from the characters that write it. -/
theorem readInt?_eq_some_iff : readInt? cs = some n ↔ Writes cs n := by
  constructor
  · intro h
    by_cases hminus : ∃ ds, cs = '-' :: ds
    · obtain ⟨ds, rfl⟩ := hminus
      rw [readInt?_minus] at h
      obtain ⟨hne, hdigits, rfl⟩ := map_readNat?_eq_some_iff.1 h
      exact .minus hne hdigits
    · by_cases hplus : ∃ ds, cs = '+' :: ds
      · obtain ⟨ds, rfl⟩ := hplus
        rw [readInt?_plus] at h
        obtain ⟨hne, hdigits, rfl⟩ := map_readNat?_eq_some_iff.1 h
        exact .plus hne hdigits
      · rw [readInt?_unsigned (not_exists.1 hminus) (not_exists.1 hplus)] at h
        obtain ⟨hne, hdigits, rfl⟩ := map_readNat?_eq_some_iff.1 h
        exact .unsigned hne hdigits
  · intro h
    cases h with
    | minus hne hdigits =>
      rw [readInt?_minus]
      exact map_readNat?_eq_some_iff.2 ⟨hne, hdigits, rfl⟩
    | plus hne hdigits =>
      rw [readInt?_plus]
      exact map_readNat?_eq_some_iff.2 ⟨hne, hdigits, rfl⟩
    | unsigned hne hdigits =>
      -- Digits begin with no sign.
      have hsign {c : Char} (hc : c.isDigit = false) (ds : List Char) : cs ≠ c :: ds := by
        rintro rfl
        rw [hdigits c List.mem_cons_self] at hc
        cases hc
      rw [readInt?_unsigned (hsign rfl) (hsign rfl)]
      exact map_readNat?_eq_some_iff.2 ⟨hne, hdigits, rfl⟩

theorem readInt64?_eq_some_iff {i : Int64} : readInt64? cs = some i ↔ Writes cs i.toInt := by
  rw [readInt64?, Option.bind_eq_some_iff, ← readInt?_eq_some_iff]
  constructor
  · rintro ⟨m, hm, hi⟩
    rw [hm, toInt64?_eq_some_iff.1 hi]
  · exact fun h => ⟨_, h, toInt64?_toInt i⟩

/-- There are no blanks in an integer. -/
theorem Writes.not_blank (h : Writes cs n) : ∀ c ∈ cs, Text.isBlank c = false := by
  cases h with
  | unsigned _ hdigits => exact fun c hc => Text.isBlank_eq_false_of_isDigit (hdigits c hc)
  | plus _ hdigits | minus _ hdigits =>
    refine List.forall_mem_cons.2 ⟨rfl, fun c hc => ?_⟩
    exact Text.isBlank_eq_false_of_isDigit (hdigits c hc)

theorem Writes.ne_nil (h : Writes cs n) : cs ≠ [] := by
  cases h with
  | unsigned hne _ => exact hne
  | plus _ _ | minus _ _ => exact List.cons_ne_nil _ _

end Decimal

/-- A text writes the integer that its trimmed part writes. -/
theorem Text.writesInteger_iff {s : String} {n : Int} :
    WritesInteger s n ↔ Decimal.Writes (trim s).toList n := by
  rw [toList_trim]
  constructor
  · rintro ⟨before, core, after, hs, hbefore, hafter, hcore⟩
    rwa [hs, trimChars_append_of_forall hbefore hafter hcore.not_blank hcore.ne_nil]
  · intro h
    obtain ⟨before, after, hbefore, hafter, hs⟩ := exists_eq_append_trimChars s.toList
    exact ⟨before, _, after, hs, hbefore, hafter, h⟩

theorem Text.WritesInteger.unique {s : String} {m n : Int} (hm : WritesInteger s m)
    (hn : WritesInteger s n) : m = n := by
  have hm' := Decimal.readInt?_eq_some_iff.2 (writesInteger_iff.1 hm)
  rw [Decimal.readInt?_eq_some_iff.2 (writesInteger_iff.1 hn)] at hm'
  exact (Option.some.inj hm').symm

namespace Options

/-! ## Bounded numbers -/

section Bounded

variable {option : QueryOption} {value : String} {least greatest n : Int}

/-- **A whole number is read exactly when it is within its bounds.** -/
theorem readWhole_eq_ok_iff (hleast : Decimal.minInt64 ≤ least)
    (hgreatest : greatest ≤ Decimal.maxInt64) :
    readWhole option value least greatest = .ok n ↔
      Text.WritesInteger value n ∧ least ≤ n ∧ n ≤ greatest := by
  constructor
  · intro h
    refine ⟨?_, readWhole_bounds h⟩
    unfold readWhole at h
    split at h
    · cases h
    · next i hi =>
      split at h
      · cases h
      · cases h
        exact Text.writesInteger_iff.2 (Decimal.readInt64?_eq_some_iff.1 hi)
  · rintro ⟨hn, hle, hge⟩
    obtain ⟨i, hi⟩ : ∃ i : Int64, i.toInt = n := by
      refine ⟨Int64.ofInt n, Int64.toInt_ofInt_of_le (hleast.trans hle) ?_⟩
      exact Int.lt_add_one_of_le (hge.trans hgreatest)
    have hread : Decimal.readInt64? (Text.trim value).toList = some i :=
      Decimal.readInt64?_eq_some_iff.2 (hi ▸ Text.writesInteger_iff.1 hn)
    unfold readWhole
    rw [hread]
    simp only [hi]
    rw [if_neg (by omega)]

end Bounded

/-! ## Numbers of a fixed width -/

section Narrowed

variable {α : Type} {option : QueryOption} {value : String} {least greatest : Int} {size : Nat}
  {ofNat : Nat → α} {toNat : α → Nat}

/-- **A number within its bounds fits**, where the bounds do. -/
theorem readWhole_bind_narrow (hleast : 0 ≤ least) (hsize : greatest < size) :
    (readWhole option value least greatest >>= narrow option value size ofNat) =
      (fun n => ofNat n.toNat) <$> readWhole option value least greatest := by
  cases h : readWhole option value least greatest with
  | error r => rfl
  | ok n =>
    obtain ⟨hle, hge⟩ := readWhole_bounds h
    exact if_pos ⟨hleast.trans hle, lt_of_le_of_lt hge hsize⟩

/-- A number of a fixed width is read exactly when it is written and within its bounds. -/
theorem readNarrow_eq_ok_iff (hto : ∀ n < size, toNat (ofNat n) = n)
    (hof : ∀ a, ofNat (toNat a) = a) (hleast : 0 ≤ least) (hsize : greatest < size)
    (hgreatest : greatest ≤ Decimal.maxInt64) {a : α} :
    (readWhole option value least greatest >>= narrow option value size ofNat) = .ok a ↔
      Text.WritesInteger value (toNat a) ∧ least ≤ toNat a ∧ toNat a ≤ greatest := by
  have hminus : Decimal.minInt64 ≤ 0 := by decide
  rw [readWhole_bind_narrow hleast hsize, map_eq_ok]
  constructor
  · rintro ⟨n, hn, rfl⟩
    obtain ⟨hwrites, hle, hge⟩ := (readWhole_eq_ok_iff (hminus.trans hleast) hgreatest).1 hn
    rw [hto n.toNat (by omega), Int.toNat_of_nonneg (hleast.trans hle)]
    exact ⟨hwrites, hle, hge⟩
  · intro h
    refine ⟨toNat a, (readWhole_eq_ok_iff (hminus.trans hleast) hgreatest).2 h, ?_⟩
    rw [Int.toNat_natCast, hof]

/-- A number of a fixed width is read from the texts that write an integer within its bounds. -/
theorem exists_readNarrow_iff (hleast : 0 ≤ least) (hsize : greatest < size)
    (hgreatest : greatest ≤ Decimal.maxInt64) :
    (∃ a, (readWhole option value least greatest >>= narrow option value size ofNat) = .ok a) ↔
      ∃ n : Int, Text.WritesInteger value n ∧ least ≤ n ∧ n ≤ greatest := by
  have hminus : Decimal.minInt64 ≤ 0 := by decide
  simp only [readWhole_bind_narrow hleast hsize, map_eq_ok,
    readWhole_eq_ok_iff (hminus.trans hleast) hgreatest]
  constructor
  · rintro ⟨_, n, hn, -⟩
    exact ⟨n, hn⟩
  · rintro ⟨n, hn⟩
    exact ⟨_, n, hn, rfl⟩

end Narrowed

section Page

variable {maxTop t : UInt32} {k : UInt64} {value : String}

theorem maxTop_lt_size : (maxTop.toNat : Int) < UInt32.size := Int.ofNat_lt.2 maxTop.toNat_lt_size

theorem maxTop_le : (maxTop.toNat : Int) ≤ Decimal.maxInt64 := by
  have hsize : (UInt32.size : Int) ≤ Decimal.maxInt64 := by decide
  exact maxTop_lt_size.le.trans hsize

theorem maxInt64_lt_size : (Decimal.maxInt64 : Int) < UInt64.size := by decide

theorem readTop_eq : readTop maxTop value =
    (fun n => UInt32.ofNat n.toNat) <$> readWhole .top value 1 maxTop.toNat :=
  readWhole_bind_narrow Int.one_nonneg maxTop_lt_size

theorem readSkip_eq : readSkip value =
    (fun n => UInt64.ofNat n.toNat) <$> readWhole .skip value 0 Decimal.maxInt64 :=
  readWhole_bind_narrow (Int.le_refl 0) maxInt64_lt_size

theorem readTop_eq_ok_iff : readTop maxTop value = .ok t ↔
    Text.WritesInteger value t.toNat ∧ 1 ≤ (t.toNat : Int) ∧ (t.toNat : Int) ≤ maxTop.toNat :=
  readNarrow_eq_ok_iff (fun _ => UInt32.toNat_ofNat_of_lt') (fun _ => UInt32.ofNat_toNat)
    Int.one_nonneg maxTop_lt_size maxTop_le

theorem readSkip_eq_ok_iff : readSkip value = .ok k ↔
    Text.WritesInteger value k.toNat ∧ 0 ≤ (k.toNat : Int) ∧ (k.toNat : Int) ≤ Decimal.maxInt64 :=
  readNarrow_eq_ok_iff (fun _ => UInt64.toNat_ofNat_of_lt') (fun _ => UInt64.ofNat_toNat)
    (Int.le_refl 0) maxInt64_lt_size (Int.le_refl _)

theorem exists_readTop_iff : (∃ t, readTop maxTop value = .ok t) ↔
    ∃ n : Int, Text.WritesInteger value n ∧ 1 ≤ n ∧ n ≤ maxTop.toNat :=
  exists_readNarrow_iff Int.one_nonneg maxTop_lt_size maxTop_le

theorem exists_readSkip_iff : (∃ k, readSkip value = .ok k) ↔
    ∃ n : Int, Text.WritesInteger value n ∧ 0 ≤ n ∧ n ≤ Decimal.maxInt64 :=
  exists_readNarrow_iff (Int.le_refl 0) maxInt64_lt_size (Int.le_refl _)

end Page

/-! ## Requests with one option -/

/-- The options of a request without any. -/
def absent (limits : Limits) : Options where
  filter := none
  sort := []
  skip := none
  top := limits.defaultTop
  expand := []
  select := []
  count := false

/-- The parameters of a request that carries one option only. -/
def alone (option : QueryOption) (value : String) : Parameters := .ofPairs [(option.key, value)]

section Alone

variable {option other : QueryOption} {value : String} {contract : Contract} {limits : Limits}

theorem get?_alone : (alone option value).get? option.key = some [value] :=
  Parameters.get?_push_self ..

theorem get?_alone_of_ne (h : other ≠ option) : (alone option value).get? other.key = none :=
  (Parameters.get?_push_of_ne _ (mt QueryOption.key_injective h) value).trans rfl

theorem read_alone {α : Type} {a x : α} {read : String → Except Rejection α} :
    (single? (alone option value) option >>= readOr a read) = .ok x ↔ read value = .ok x := by
  rw [single?, get?_alone]
  rfl

theorem read_alone_of_ne {α : Type} {a x : α} {read : String → Except Rejection α}
    (h : other ≠ option) :
    (single? (alone option value) other >>= readOr a read) = .ok x ↔ x = a := by
  rw [single?, get?_alone_of_ne h]
  exact pure_eq_ok.trans eq_comm

theorem entries_alone_of_ne (value : String) (h : other ≠ option) :
    entries (alone option value) other = [] := by
  rw [entries, get?_alone_of_ne h]
  rfl

theorem checkKey_alone (hallows : contract.allows option = true) :
    ∀ entry ∈ (alone option value).toList, checkKey contract entry.1 entry.2 = .ok () := by
  have hlist : (alone option value).toList = [(option.key, [value])] := rfl
  rw [hlist, List.forall_mem_singleton, checkKey, QueryOption.ofKey?_key]
  exact if_pos hallows

/-- A request with nothing but a page size, or a number of rows to leave out, has the options of
none but for these two. -/
theorem validate_alone_iff (hpage : option = .top ∨ option = .skip)
    (hallows : contract.allows option = true) {o : Options} :
    validate (alone option value) contract limits = .ok o ↔ ∃ top skip,
      (single? (alone option value) .top >>= readOr limits.defaultTop (readTop limits.maxTop)) =
        .ok top ∧
      (single? (alone option value) .skip >>= readOr none fun value => some <$> readSkip value) =
        .ok skip ∧ o = { absent limits with top := top, skip := skip } := by
  have hne : ∀ other ∈ [QueryOption.filter, .sort, .expand, .select, .count], other ≠ option := by
    rcases hpage with rfl | rfl <;> decide
  have hfilter := hne .filter (by decide)
  have hcount := hne .count (by decide)
  have hsort := entries_alone_of_ne value (hne .sort (by decide))
  have hexpand := entries_alone_of_ne value (hne .expand (by decide))
  have hselect := entries_alone_of_ne value (hne .select (by decide))
  rw [validate_eq_ok]
  constructor
  · rintro ⟨-, hf, htop, hskip, hc, hs, he, hl⟩
    rw [read_alone_of_ne hfilter] at hf
    rw [read_alone_of_ne hcount] at hc
    rw [hsort, List.mapM_nil, pure_eq_ok] at hs
    rw [hexpand] at he
    rw [hselect] at hl
    refine ⟨_, _, htop, hskip, ?_⟩
    cases o
    simp_all [absent]
  · rintro ⟨top, skip, htop, hskip, rfl⟩
    exact {
      keys := checkKey_alone hallows
      filter := (read_alone_of_ne hfilter).2 rfl
      top := htop
      skip := hskip
      count := (read_alone_of_ne hcount).2 rfl
      sort := by rw [hsort]; rfl
      expand := hexpand.symm
      select := hselect.symm }

theorem validate_top_iff (hallows : contract.allows .top = true) {o : Options} :
    validate (alone .top value) contract limits = .ok o ↔
      ∃ t, readTop limits.maxTop value = .ok t ∧ o = { absent limits with top := t } := by
  rw [validate_alone_iff (.inl rfl) hallows]
  constructor
  · rintro ⟨t, skip, ht, hskip, rfl⟩
    obtain rfl := (read_alone_of_ne (by decide)).1 hskip
    exact ⟨t, read_alone.1 ht, rfl⟩
  · rintro ⟨t, ht, rfl⟩
    exact ⟨t, none, read_alone.2 ht, (read_alone_of_ne (by decide)).2 rfl, rfl⟩

theorem validate_skip_iff (hallows : contract.allows .skip = true) {o : Options} :
    validate (alone .skip value) contract limits = .ok o ↔
      ∃ k, readSkip value = .ok k ∧ o = { absent limits with skip := some k } := by
  rw [validate_alone_iff (.inr rfl) hallows]
  constructor
  · rintro ⟨top, skip, htop, hskip, rfl⟩
    obtain rfl := (read_alone_of_ne (by decide)).1 htop
    obtain ⟨k, hk, rfl⟩ := map_eq_ok.1 (read_alone.1 hskip)
    exact ⟨k, hk, rfl⟩
  · rintro ⟨k, hk, rfl⟩
    exact ⟨limits.defaultTop, some k, (read_alone_of_ne (by decide)).2 rfl,
      read_alone.2 (map_eq_ok.2 ⟨k, hk, rfl⟩), rfl⟩

end Alone

/-! ## No number is out of range -/

/-- A rejection for anything but a number that is read and does not fit. -/
def InRange (r : Rejection) : Prop := ∀ key value, r ≠ .invalid key value .outOfRange

theorem failsWith_refused {α : Type} {key value : String} {reason : Refusal}
    (h : reason ≠ .outOfRange) :
    FailsWith InRange (.error (.invalid key value reason) : Except Rejection α) :=
  .error fun _ _ he => h (Rejection.invalid.inj he).2.2

theorem failsWith_checkKey (contract : Contract) (key : String) (values : List String) :
    FailsWith InRange (checkKey contract key values) := by
  unfold checkKey
  simp only
  split
  · split
    · exact .ok _
    · exact failsWith_refused nofun
  · split
    · exact .ok _
    · exact failsWith_refused nofun

theorem failsWith_single? (p : Parameters) (option : QueryOption) :
    FailsWith InRange (single? p option) := by
  unfold single?
  split
  · exact .ok _
  · exact .ok _
  · exact .ok _
  · exact failsWith_refused nofun

theorem failsWith_readOr {α : Type} {a : α} {read : String → Except Rejection α}
    (h : ∀ value, FailsWith InRange (read value)) (value : Option String) :
    FailsWith InRange (readOr a read value) := by
  cases value with
  | none => exact .ok _
  | some value => exact h value

theorem failsWith_readFilter (value : String) : FailsWith InRange (readFilter value) := by
  unfold readFilter
  split
  · exact failsWith_refused nofun
  · exact .ok _

theorem failsWith_readWhole (option : QueryOption) (value : String) (least greatest : Int) :
    FailsWith InRange (readWhole option value least greatest) := by
  unfold readWhole
  split
  · exact failsWith_refused nofun
  · split
    · split
      · exact failsWith_refused nofun
      · exact failsWith_refused nofun
    · exact .ok _

theorem failsWith_readCount (value : String) : FailsWith InRange (readCount value) := by
  unfold readCount
  simp only
  split
  · exact .ok _
  · split
    · exact .ok _
    · exact failsWith_refused nofun

theorem failsWith_readSort (contract : Contract) (entry : String) :
    FailsWith InRange (readSort contract entry) := by
  unfold readSort
  simp only
  split
  · exact failsWith_refused nofun
  · split
    · split
      · exact .ok _
      · exact failsWith_refused nofun
    · exact .ok _

/-- **No request is refused because a number that was read is out of range.** -/
theorem failsWith_validate (p : Parameters) (contract : Contract) (limits : Limits) :
    FailsWith InRange (validate p contract limits) := by
  have hfilter (value : String) : FailsWith InRange (some <$> readFilter value) :=
    (failsWith_readFilter value).map _
  have htop (value : String) : FailsWith InRange (readTop limits.maxTop value) := by
    rw [readTop_eq]
    exact (failsWith_readWhole _ _ _ _).map _
  have hskip (value : String) : FailsWith InRange (some <$> readSkip value) := by
    rw [readSkip_eq]
    exact ((failsWith_readWhole _ _ _ _).map _).map _
  unfold validate
  refine .bind (.forM fun entry => failsWith_checkKey contract entry.1 entry.2) fun _ _ => ?_
  refine (failsWith_single? p .filter).bind fun v₁ _ =>
    (failsWith_readOr hfilter v₁).bind fun _ _ => ?_
  refine (failsWith_single? p .top).bind fun v₂ _ => (failsWith_readOr htop v₂).bind fun _ _ => ?_
  refine (failsWith_single? p .skip).bind fun v₃ _ =>
    (failsWith_readOr hskip v₃).bind fun _ _ => ?_
  refine (failsWith_single? p .count).bind fun v₄ _ =>
    (failsWith_readOr failsWith_readCount v₄).bind fun _ _ => ?_
  exact (FailsWith.mapM fun entry => failsWith_readSort contract entry).bind fun _ _ => .ok _

/-! ## Numeric options -/

/-- **Numeric options are read exactly.** A request with nothing but a page size is valid exactly
when its text writes an integer from 1 to the largest page, and that integer is the page; one with
nothing but a number of rows to leave out is valid exactly when its text writes an integer from 0 to
the greatest one of 64 bits, and that many rows are left out. No request at all is refused because a
number within its bounds does not fit. -/
theorem validate_numbers_exact {contract : Contract} (limits : Limits)
    (htop : contract.allows .top = true) (hskip : contract.allows .skip = true) (v : String) :
    ((∃ o, validate (alone .top v) contract limits = .ok o) ↔
      ∃ n : Int, Text.WritesInteger v n ∧ 1 ≤ n ∧ n ≤ limits.maxTop.toNat) ∧
    (∀ o n, validate (alone .top v) contract limits = .ok o → Text.WritesInteger v n →
      (o.top.toNat : Int) = n ∧ o = { absent limits with top := o.top }) ∧
    ((∃ o, validate (alone .skip v) contract limits = .ok o) ↔
      ∃ n : Int, Text.WritesInteger v n ∧ 0 ≤ n ∧ n ≤ 9223372036854775807) ∧
    (∀ o n, validate (alone .skip v) contract limits = .ok o → Text.WritesInteger v n →
      ∃ k : UInt64, (k.toNat : Int) = n ∧ o = { absent limits with skip := some k }) ∧
    ∀ (p : Parameters) (c : Contract) (l : Limits) (key value : String),
      validate p c l ≠ .error (.invalid key value .outOfRange) := by
  refine ⟨?_, ?_, ?_, ?_, fun p c l key value h => failsWith_validate p c l _ h key value rfl⟩
  · refine Iff.trans ⟨?_, ?_⟩ exists_readTop_iff
    · rintro ⟨o, ho⟩
      obtain ⟨t, ht, -⟩ := (validate_top_iff htop).1 ho
      exact ⟨t, ht⟩
    · rintro ⟨t, ht⟩
      exact ⟨_, (validate_top_iff htop).2 ⟨t, ht, rfl⟩⟩
  · intro o n ho hn
    obtain ⟨t, ht, rfl⟩ := (validate_top_iff htop).1 ho
    exact ⟨(readTop_eq_ok_iff.1 ht).1.unique hn, rfl⟩
  · refine Iff.trans ⟨?_, ?_⟩ exists_readSkip_iff
    · rintro ⟨o, ho⟩
      obtain ⟨k, hk, -⟩ := (validate_skip_iff hskip).1 ho
      exact ⟨k, hk⟩
    · rintro ⟨k, hk⟩
      exact ⟨_, (validate_skip_iff hskip).2 ⟨k, hk, rfl⟩⟩
  · intro o n ho hn
    obtain ⟨k, hk, rfl⟩ := (validate_skip_iff hskip).1 ho
    exact ⟨k, (readSkip_eq_ok_iff.1 hk).1.unique hn, rfl⟩

/-- Blanks, a sign and leading zeros, as many as there are, do not change a number. -/
theorem validate_numbers_exact_padded : ({} : Contract).allows .top = true ∧
    ({} : Contract).allows .skip = true ∧
    (∃ o,
      validate (alone .top "\t+0000000000000000000000000000000000000000007\u3000") {} {} = .ok o) ∧
    ∀ o,
      validate (alone .top "\t+0000000000000000000000000000000000000000007\u3000") {} {} = .ok o →
        (o.top.toNat : Int) = 7 := by
  have hexact := @validate_numbers_exact {} {} rfl rfl
    "\t+0000000000000000000000000000000000000000007\u3000"
  have hwrites : Text.WritesInteger "\t+0000000000000000000000000000000000000000007\u3000" 7 := by
    refine Text.writesInteger_iff.2 (Decimal.readInt?_eq_some_iff.1 ?_)
    decide +kernel
  refine ⟨rfl, rfl, hexact.1.2 ⟨7, hwrites, by decide, by decide⟩, fun o ho => ?_⟩
  exact (hexact.2.1 o 7 ho hwrites).1

end Options

end RequestQuery
