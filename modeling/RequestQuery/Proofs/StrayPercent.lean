import RequestQuery.Proofs.ComponentSize

/-!
# Percent signs that begin no escape

A percent sign that two hexadecimal digits do not follow stands for itself. A reader that goes on
right after it (`Form.resume`) reads every plus sign as a space and every escape that is written.
The two octets after such a sign are kept as they are written here, so a plus sign or the beginning
of an escape among them is hidden (`Form.Hides`).

* `Form.length_resume_le`: that reader makes nothing longer.
* `Form.unescape?_eq_resume_iff`: the two readers agree exactly where nothing is hidden.
-/

namespace RequestQuery.Form

/-- The octets that a component stands for when reading goes on right after a percent sign that
begins no escape. -/
def resume : List UInt8 → List UInt8
  | [] => []
  | octet :: rest =>
    if octet = percent then
      match rest with
      | high :: low :: after =>
        match hexValue? high, hexValue? low with
        | some h, some l => UInt8.ofNat (16 * h + l) :: resume after
        | _, _ => percent :: resume (high :: low :: after)
      | [high] => percent :: resume [high]
      | [] => [percent]
    else if octet = plus then space :: resume rest
    else octet :: resume rest

/-- The octets begin with a percent sign and two digits. -/
def BeginsEscape (octets : List UInt8) : Prop :=
  ∃ high low rest, octets = percent :: high :: low :: rest ∧ hexValue? high ≠ none ∧
    hexValue? low ≠ none

/-- Reading from the left, a percent sign that begins no escape stands before a plus sign or the
beginning of an escape, with at most one octet between them. -/
inductive Hides : List UInt8 → Prop where
  | stray {high low : UInt8} {rest : List UInt8} : hexValue? high = none ∨ hexValue? low = none →
    plus ∈ [high, low] ∨ BeginsEscape (high :: low :: rest) ∨ BeginsEscape (low :: rest) →
      Hides (percent :: high :: low :: rest)
  | cut : Hides [percent, plus]
  | later {octets out rest : List UInt8} : Piece octets out rest → Hides rest → Hides octets

/-! ## Reading right after a percent sign -/

theorem ne_of_hexValue? {octet : UInt8} (h : hexValue? octet ≠ none) :
    octet ≠ percent ∧ octet ≠ plus := by
  constructor
  · rintro rfl
    exact h (by decide)
  · rintro rfl
    exact h (by decide)

theorem resume_plus (rest : List UInt8) : resume (plus :: rest) = space :: resume rest := by
  conv => lhs; rw [resume.eq_def]
  rfl

theorem resume_escape {high low : UInt8} {h l : Nat} (hh : hexValue? high = some h)
    (hl : hexValue? low = some l) (rest : List UInt8) :
    resume (percent :: high :: low :: rest) = UInt8.ofNat (16 * h + l) :: resume rest := by
  conv => lhs; rw [resume.eq_def]
  simp only [if_true, hh, hl]

/-- An octet that is no plus sign and begins no escape stands for itself. -/
theorem resume_self {octet : UInt8} {rest : List UInt8} (hplus : octet ≠ plus)
    (hescape : ¬ BeginsEscape (octet :: rest)) : resume (octet :: rest) = octet :: resume rest := by
  conv => lhs; rw [resume.eq_def]
  by_cases hpercent : octet = percent
  · subst hpercent
    simp only [if_true]
    match rest with
    | [] => rfl
    | [_] => rfl
    | high :: low :: rest =>
      cases hh : hexValue? high with
      | none => simp only [hh]
      | some h =>
        cases hl : hexValue? low with
        | none => simp only [hh, hl]
        | some l =>
          exact absurd ⟨high, low, rest, rfl, by rw [hh]; nofun, by rw [hl]; nofun⟩ hescape
  · simp only [if_neg hpercent, if_neg hplus]

/-- A digit stands for itself. -/
theorem resume_digit {octet : UInt8} (h : hexValue? octet ≠ none) (rest : List UInt8) :
    resume (octet :: rest) = octet :: resume rest := by
  refine resume_self (ne_of_hexValue? h).2 ?_
  rintro ⟨high, low, rest', he, -, -⟩
  exact (ne_of_hexValue? h).1 (List.cons.inj he).1

/-! ## Lengths -/

/-- An escape is shorter by two octets than what follows its percent sign. -/
theorem length_resume_of_beginsEscape {octet : UInt8} {rest : List UInt8}
    (h : BeginsEscape (octet :: rest)) :
    (resume (octet :: rest)).length + 1 = (resume rest).length := by
  obtain ⟨high, low, rest', he, hhigh, hlow⟩ := h
  obtain ⟨rfl, rfl⟩ := List.cons.inj he
  obtain ⟨h, hh⟩ := Option.ne_none_iff_exists'.1 hhigh
  obtain ⟨l, hl⟩ := Option.ne_none_iff_exists'.1 hlow
  rw [resume_escape hh hl, resume_digit hhigh, resume_digit hlow]
  rfl

/-- An octet adds one octet at most. -/
theorem length_resume_cons_le (octet : UInt8) (rest : List UInt8) :
    (resume (octet :: rest)).length ≤ (resume rest).length + 1 := by
  by_cases hplus : octet = plus
  · rw [hplus, resume_plus]
    exact Nat.le_refl _
  · by_cases hescape : BeginsEscape (octet :: rest)
    · have h := length_resume_of_beginsEscape hescape
      omega
    · rw [resume_self hplus hescape]
      exact Nat.le_refl _

theorem Piece.length_resume_le {octets out rest : List UInt8} (h : Piece octets out rest) :
    (resume octets).length ≤ out.length + (resume rest).length := by
  cases h with
  | escape rest hh hl =>
    rw [resume_escape hh hl]
    exact Nat.le_of_eq (Nat.add_comm ..)
  | @stray high low rest =>
    have hfirst := length_resume_cons_le percent (high :: low :: rest)
    have hsecond := length_resume_cons_le high (low :: rest)
    have hthird := length_resume_cons_le low rest
    simp only [List.length_cons, List.length_nil]
    omega
  | last => exact Nat.le_refl 1
  | cut high =>
    have hfirst := length_resume_cons_le percent [high]
    have hsecond := length_resume_cons_le high []
    simp only [List.length_cons, List.length_nil, resume] at hfirst hsecond ⊢
    omega
  | plus rest =>
    rw [resume_plus]
    exact Nat.le_of_eq (Nat.add_comm ..)
  | @plain octet rest => exact Nat.add_comm 1 _ ▸ length_resume_cons_le octet rest

/-- **Reading right after a percent sign makes nothing longer.** -/
theorem length_resume_le (octets : List UInt8) :
    (resume octets).length ≤ (unescapeAll octets).length := by
  induction octets using piece_induct with
  | nil => exact Nat.le_refl 0
  | piece octets out rest h ih =>
    rw [h.unescapeAll_eq, List.length_append]
    exact Nat.le_trans h.length_resume_le (Nat.add_le_add_left ih _)

/-! ## Hidden octets -/

theorem not_beginsEscape {high low : UInt8} {rest : List UInt8}
    (h : hexValue? high = none ∨ hexValue? low = none) :
    ¬ BeginsEscape (percent :: high :: low :: rest) := by
  rintro ⟨high', low', rest', he, hhigh, hlow⟩
  cases he
  exact h.elim hhigh hlow

/-- Where something is hidden the readers differ: by a plus sign that is no space, or by an escape
that takes more octets than it should. -/
theorem unescapeAll_ne_resume {high low : UInt8} {rest : List UInt8}
    (hno : hexValue? high = none ∨ hexValue? low = none)
    (hhidden : plus ∈ [high, low] ∨ BeginsEscape (high :: low :: rest) ∨
      BeginsEscape (low :: rest)) :
    unescapeAll (percent :: high :: low :: rest) ≠ resume (percent :: high :: low :: rest) := by
  rw [(Piece.stray rest hno).unescapeAll_eq, resume_self (by decide) (not_beginsEscape hno)]
  intro he
  have he : high :: low :: unescapeAll rest = resume (high :: low :: rest) := (List.cons.inj he).2
  have hlength := congrArg List.length he
  have hrest := length_resume_le rest
  simp only [List.length_cons] at hlength
  rcases hhidden with hplus | hescape | hescape
  · by_cases hhigh : high = plus
    · rw [hhigh, resume_plus] at he
      exact absurd (List.cons.inj he).1 (by decide)
    · obtain rfl : plus = low := by simpa [Ne.symm hhigh] using hplus
      rw [resume_self hhigh, resume_plus] at he
      · exact absurd (List.cons.inj (List.cons.inj he).2).1 (by decide)
      · rintro ⟨high', low', rest', he', hhigh', -⟩
        cases he'
        exact hhigh' (by decide)
  · have hfirst := length_resume_of_beginsEscape hescape
    have hsecond := length_resume_cons_le low rest
    omega
  · have hfirst := length_resume_cons_le high (low :: rest)
    have hsecond := length_resume_of_beginsEscape hescape
    omega

/-- A piece is read alike by both readers, or it hides something. -/
theorem Piece.resume_cases {octets out rest : List UInt8} (h : Piece octets out rest) :
    resume octets = out ++ resume rest ∨ Hides octets ∧ unescapeAll octets ≠ resume octets := by
  cases h with
  | escape rest hh hl => exact .inl (resume_escape hh hl rest)
  | @stray high low rest hno =>
    by_cases hhidden : Form.plus ∈ [high, low] ∨ BeginsEscape (high :: low :: rest) ∨
        BeginsEscape (low :: rest)
    · exact .inr ⟨.stray hno hhidden, unescapeAll_ne_resume hno hhidden⟩
    · simp only [List.mem_cons, List.not_mem_nil, or_false, not_or] at hhidden
      obtain ⟨⟨hhigh, hlow⟩, hfirst, hsecond⟩ := hhidden
      left
      rw [resume_self (by decide) (not_beginsEscape hno), resume_self (Ne.symm hhigh) hfirst,
        resume_self (Ne.symm hlow) hsecond]
      rfl
  | last => exact .inl rfl
  | cut high =>
    by_cases hhigh : high = Form.plus
    · subst hhigh
      exact .inr ⟨.cut, by decide⟩
    · have hshort : ¬ BeginsEscape [percent, high] ∧ ¬ BeginsEscape [high] := by
        constructor <;> (rintro ⟨_, _, _, he, -, -⟩; cases he)
      left
      rw [resume_self (by decide) hshort.1, resume_self hhigh hshort.2]
      rfl
  | plus rest => exact .inl (resume_plus rest)
  | plain rest hpercent hplus =>
    refine .inl (resume_self hplus ?_)
    rintro ⟨high, low, rest', he, -, -⟩
    exact hpercent (List.cons.inj he).1

/-- **The readers agree exactly where nothing is hidden.** -/
theorem unescapeAll_eq_resume_iff (octets : List UInt8) :
    unescapeAll octets = resume octets ↔ ¬ Hides octets := by
  constructor
  · intro he hhides
    induction hhides with
    | stray hno hhidden => exact unescapeAll_ne_resume hno hhidden he
    | cut => exact absurd he (by decide)
    | later h _ ih =>
      rcases h.resume_cases with hresume | ⟨-, hne⟩
      · rw [h.unescapeAll_eq, hresume] at he
        exact ih (List.append_cancel_left he)
      · exact hne he
  · intro hhides
    induction octets using piece_induct with
    | nil => rfl
    | piece octets out rest h ih =>
      rcases h.resume_cases with hresume | ⟨hhere, -⟩
      · rw [h.unescapeAll_eq, hresume, ih fun hlater => hhides (.later h hlater)]
      · exact absurd hhere hhides

/-- **A component within the limit is read alike by both readers exactly where it hides nothing**:
there every plus sign is a space, every escape is read, and every other percent sign is kept. -/
theorem unescape?_eq_resume_iff {octets : List UInt8} (h : (resume octets).length ≤ maxOctets) :
    unescape? octets = some (resume octets) ↔ ¬ Hides octets := by
  rw [← unescapeAll_eq_resume_iff, unescape?]
  rcases unescapeFrom?_cases octets [] 0 with hread | ⟨hread, hover⟩
  · rw [hread, Option.some.injEq]
    rfl
  · rw [hread]
    refine ⟨fun he => absurd he.symm (Option.some_ne_none _), fun he => ?_⟩
    rw [he] at hover
    omega

theorem unescape?_eq_resume_iff_kept : (resume (Utf8.encode "%zz+%41%".toList)).length ≤ maxOctets ∧
    (unescape? (Utf8.encode "%zz+%41%".toList) = some (resume (Utf8.encode "%zz+%41%".toList)) ↔
      ¬ Hides (Utf8.encode "%zz+%41%".toList)) := by
  have h : (resume (Utf8.encode "%zz+%41%".toList)).length ≤ maxOctets := by decide +kernel
  exact ⟨h, unescape?_eq_resume_iff h⟩

/-- The text that a component stands for when reading goes on right after a percent sign that begins
no escape. -/
def resumedText (component : String) : String :=
  String.ofList (Utf8.decode (resume (Utf8.encode component.toList)))

/-- A plus sign and an escape can be hidden. -/
theorem hidden_plus_and_escape :
    decode? "5%+off" = some "5%+off" ∧ resumedText "5%+off" = "5% off" ∧
      decode? "%%41" = some "%%41" ∧ resumedText "%%41" = "%A" := by
  decide +kernel

end RequestQuery.Form
