import RequestQuery.Filter.Printer
import RequestQuery.Proofs.Fallible
import RequestQuery.Text.Split

/-!
# The grammar of tokens

What characters make a token of a kind, said without the scanner (`Spells`), and what may follow it
(`Kind.Ends`): a word must not go on as a word, nor a number as a word or with a point, and after a
quoted text there may be no further quote. A token is scanned at the front of a text exactly when
such characters stand there and such a rest follows.

* `unquote?_eq_some_iff`: a quoted text goes up to a lone quote.
* `scanToken_eq_ok`, `scanToken_of_spells`: what is scanned is spelled, and what is spelled is
  scanned.
-/

namespace RequestQuery.Filter

open Fallible Utf8

/-! ## What spells a token -/

/-- The characters of a fraction with its point, if there is one. -/
def pointed (fraction : List Char) : List Char :=
  if fraction.isEmpty then [] else '.' :: fraction

/-- The characters of a sign. -/
def signChars (negative : Bool) : List Char := if negative then ['-'] else []

/-- `Spells k span`: the characters `span` make a token of the kind `k`. -/
inductive Spells : Kind → List Char → Prop
  | word {c : Char} {cs : List Char} (first : Ascii.isWordStart c = true)
      (more : ∀ d ∈ cs, Ascii.isWordChar d = true) :
      Spells (.word (String.ofList (c :: cs))) (c :: cs)
  | text (value : List Char) :
      Spells (.text (String.ofList value)) ('\'' :: (doubleQuotes value ++ ['\'']))
  | number {kind : Kind} {negative : Bool} {whole fraction : List Char} (nonempty : whole ≠ [])
      (whole_digits : ∀ d ∈ whole, d.isDigit = true)
      (fraction_digits : ∀ d ∈ fraction, d.isDigit = true)
      (value : numberKind 0 negative whole fraction = .ok kind) :
      Spells kind (signChars negative ++ (whole ++ pointed fraction))
  | openParen : Spells .openParen ['(']
  | closeParen : Spells .closeParen [')']
  | comma : Spells .comma [',']

/-- Whether a token of a kind ends before a character. -/
def Kind.endsBefore : Kind → Char → Bool
  | .word _, c => !Ascii.isWordChar c
  | .text _, c => c != '\''
  | .int _, c | .decimal _, c => !(Ascii.isWordChar c || c == '.')
  | .openParen, _ | .closeParen, _ | .comma, _ => true

/-- A token of a kind ends before a text. -/
def Kind.Ends (k : Kind) (rest : List Char) : Prop := ∀ c ∈ rest.head?, k.endsBefore c = true

theorem Kind.ends_nil (k : Kind) : k.Ends [] := by simp [Kind.Ends]

theorem Kind.ends_cons_iff {k : Kind} {c : Char} {cs : List Char} :
    k.Ends (c :: cs) ↔ k.endsBefore c = true := by
  simp [Kind.Ends]

/-- Every token ends before a blank. -/
theorem Kind.ends_gap (k : Kind) {c : Char} (h : isGap c = true) (cs : List Char) :
    k.Ends (c :: cs) := by
  simp only [isGap, Bool.or_eq_true, beq_iff_eq] at h
  rw [Kind.ends_cons_iff]
  obtain ((rfl | rfl) | rfl) | rfl := h <;> cases k <;> rfl

/-- A blank takes one octet. -/
theorem utf8Size_of_isGap {c : Char} (h : isGap c = true) : c.utf8Size = 1 := by
  simp only [isGap, Bool.or_eq_true, beq_iff_eq] at h
  obtain ((rfl | rfl) | rfl) | rfl := h <;> rfl

theorem isGap_eq_false_of_isWordChar {c : Char} (h : Ascii.isWordChar c = true) :
    isGap c = false := by
  refine Bool.eq_false_iff.2 fun hgap => ?_
  have hends := Kind.ends_cons_iff.1 (Kind.ends_gap (.word "") hgap [])
  rw [Kind.endsBefore, h] at hends
  cases hends

/-- What follows the characters of a class begins with one of another class. -/
theorem head_dropWhile (p : Char → Bool) (cs : List Char) :
    ∀ c ∈ (cs.dropWhile p).head?, p c = false := by
  intro c hc
  have h := List.head?_dropWhile_not p cs
  rwa [Option.mem_def.1 hc] at h

/-! ## Quoted texts -/

theorem doubleQuotes_cons_quote (cs : List Char) :
    doubleQuotes ('\'' :: cs) = '\'' :: '\'' :: doubleQuotes cs := rfl

theorem doubleQuotes_cons_of_ne {c : Char} (h : c ≠ '\'') (cs : List Char) :
    doubleQuotes (c :: cs) = c :: doubleQuotes cs := by
  simp [doubleQuotes, h]

theorem widthOf_doubleQuotes (cs : List Char) :
    widthOf (doubleQuotes cs) = widthOf cs + cs.count '\'' := by
  induction cs with
  | nil => rfl
  | cons c cs ih =>
    by_cases hc : c = '\''
    · subst hc
      rw [doubleQuotes_cons_quote, List.count_cons_self]
      simp only [widthOf_cons, ih, show '\''.utf8Size = 1 from rfl]
      omega
    · rw [doubleQuotes_cons_of_ne hc, List.count_cons_of_ne hc, widthOf_cons, widthOf_cons, ih]
      omega

theorem unquote?_quote_of_ne {cs : List Char} (h : ∀ c ∈ cs.head?, c ≠ '\'') :
    unquote? ('\'' :: cs) = some ([], cs) := by
  rw [unquote?]
  rintro cs' rfl
  exact h '\'' rfl rfl

theorem unquote?_cons_of_ne {c : Char} (h : c ≠ '\'') (cs : List Char) :
    unquote? (c :: cs) = (unquote? cs).map fun (value, rest) => (c :: value, rest) := by
  rw [unquote?]
  · rintro cs' rfl
    exact absurd rfl h
  · exact h

/-- A quoted text goes up to a lone quote, with every quote before it doubled. -/
theorem unquote?_eq_some_iff {cs value rest : List Char} : unquote? cs = some (value, rest) ↔
    cs = doubleQuotes value ++ '\'' :: rest ∧ ∀ c ∈ rest.head?, c ≠ '\'' := by
  constructor
  · intro h
    fun_induction unquote? cs generalizing value rest with
    | case1 => cases h
    | case2 cs ih =>
      obtain ⟨⟨v, r⟩, hv, he⟩ := Option.map_eq_some_iff.1 h
      obtain ⟨rfl, rfl⟩ := Prod.mk.inj he
      obtain ⟨rfl, hrest⟩ := ih hv
      exact ⟨rfl, hrest⟩
    | case3 cs hlone =>
      cases h
      refine ⟨rfl, fun c hc hquote => ?_⟩
      subst hquote
      obtain ⟨cs', hcs⟩ := List.head?_eq_some_iff.1 hc
      exact hlone cs' hcs
    | case4 c cs _ hc ih =>
      obtain ⟨⟨v, r⟩, hv, he⟩ := Option.map_eq_some_iff.1 h
      obtain ⟨rfl, rfl⟩ := Prod.mk.inj he
      obtain ⟨rfl, hrest⟩ := ih hv
      rw [doubleQuotes_cons_of_ne hc]
      exact ⟨rfl, hrest⟩
  · rintro ⟨rfl, hrest⟩
    induction value with
    | nil => exact unquote?_quote_of_ne hrest
    | cons c cs ih =>
      by_cases hc : c = '\''
      · subst hc
        rw [doubleQuotes_cons_quote, List.cons_append, List.cons_append, unquote?, ih]
        rfl
      · rw [doubleQuotes_cons_of_ne hc, List.cons_append, unquote?_cons_of_ne hc, ih]
        rfl

theorem scanText_of_none (start : Nat) {cs : List Char} (h : unquote? cs = none) :
    scanText start cs = .error (.malformed start .unterminatedText) := by
  unfold scanText
  split
  · rfl
  · next hsome => cases h.symm.trans hsome

theorem scanText_of_some (start : Nat) {cs value rest : List Char}
    (h : unquote? cs = some (value, rest)) : ∃ t, scanText start cs = .ok t ∧
      t.kind = .text (String.ofList value) ∧ t.width = quotedWidth value ∧ t.rest = rest := by
  unfold scanText
  split
  · next hnone => cases hnone.symm.trans h
  · next value' rest' hsome =>
    obtain ⟨rfl, rfl⟩ := Prod.mk.inj (Option.some.inj (hsome.symm.trans h))
    exact ⟨_, rfl, rfl, rfl, rfl⟩

theorem scanText_eq_ok {start : Nat} {cs : List Char} {t : Scanned ('\'' :: cs)}
    (h : scanText start cs = .ok t) : ∃ span, Spells t.kind span ∧ '\'' :: cs = span ++ t.rest ∧
      t.width = widthOf span ∧ t.kind.Ends t.rest := by
  cases hunquote : unquote? cs with
  | none => cases (scanText_of_none start hunquote).symm.trans h
  | some p =>
    obtain ⟨value, rest⟩ := p
    obtain ⟨t', ht', hkind, hwidth, hleft⟩ := scanText_of_some start hunquote
    obtain rfl : t' = t := Except.ok.inj (ht'.symm.trans h)
    obtain ⟨rfl, hrest⟩ := unquote?_eq_some_iff.1 hunquote
    refine ⟨'\'' :: (doubleQuotes value ++ ['\'']), ?_, ?_, ?_, ?_⟩
    · rw [hkind]
      exact .text value
    · rw [hleft]
      simp
    · rw [hwidth]
      simp only [quotedWidth, widthOf_cons, widthOf_append, widthOf_doubleQuotes, widthOf_nil,
        show '\''.utf8Size = 1 from rfl]
      omega
    · rw [hkind, hleft]
      intro c hc
      simpa [Kind.endsBefore] using hrest c hc

theorem scanText_of_ends (start : Nat) {value rest : List Char}
    (hrest : (Kind.text (String.ofList value)).Ends rest) :
    ∃ t, scanText start (doubleQuotes value ++ '\'' :: rest) = .ok t ∧
      t.kind = .text (String.ofList value) ∧ t.rest = rest := by
  have hunquote : unquote? (doubleQuotes value ++ '\'' :: rest) = some (value, rest) :=
    unquote?_eq_some_iff.2 ⟨rfl, fun c hc => by simpa [Kind.endsBefore] using hrest c hc⟩
  obtain ⟨t, ht, hkind, -, hleft⟩ := scanText_of_some start hunquote
  exact ⟨t, ht, hkind, hleft⟩

/-! ## Numbers -/

theorem pointed_append_afterFraction (cs : List Char) :
    pointed (fractionDigits cs) ++ afterFraction cs = cs := by
  unfold fractionDigits afterFraction pointed
  split
  · next ds =>
    split
    · rfl
    · rw [List.cons_append, List.takeWhile_append_dropWhile]
  · rfl

theorem isDigit_fractionDigits (cs : List Char) : ∀ d ∈ fractionDigits cs, d.isDigit = true := by
  unfold fractionDigits
  split
  · exact List.all_eq_true.1 List.all_takeWhile
  · exact nofun

/-- No digit comes next before a fraction with its point. -/
theorem head_pointed_append (fraction : List Char) {rest : List Char}
    (hrest : ∀ c ∈ rest.head?, c.isDigit = false) :
    ∀ c ∈ (pointed fraction ++ rest).head?, c.isDigit = false := by
  cases fraction with
  | nil => exact hrest
  | cons d ds =>
    intro c hc
    obtain rfl : '.' = c := by simpa [pointed] using hc
    rfl

/-- A fraction that was written is read, where neither a digit nor a point follows. -/
theorem fractionDigits_pointed_append {fraction rest : List Char}
    (hfraction : ∀ d ∈ fraction, d.isDigit = true)
    (hdigit : ∀ c ∈ rest.head?, c.isDigit = false) (hpoint : ∀ c ∈ rest.head?, c ≠ '.') :
    fractionDigits (pointed fraction ++ rest) = fraction := by
  cases fraction with
  | nil =>
    cases rest with
    | nil => rfl
    | cons c rest => simp [pointed, fractionDigits, hpoint c rfl]
  | cons d ds => exact Text.takeWhile_append_of_head hfraction hdigit

/-- No digit follows digits and a fraction. -/
theorem head_afterFraction (cs : List Char) :
    ∀ c ∈ (afterFraction (cs.dropWhile Char.isDigit)).head?, c.isDigit = false := by
  unfold afterFraction
  split
  · split
    · intro c hc
      obtain rfl : '.' = c := by simpa using hc
      rfl
    · exact head_dropWhile _ _
  · exact head_dropWhile _ cs

/-- Whether digits make a number does not depend on where they stand. -/
theorem numberKind_eq_ok {start : Nat} {negative : Bool} {whole fraction : List Char} {k : Kind}
    (h : numberKind start negative whole fraction = .ok k) (start' : Nat) :
    numberKind start' negative whole fraction = .ok k := by
  unfold numberKind at h ⊢
  split
  · next hempty =>
    rw [if_pos hempty] at h
    simp only at h ⊢
    split at h
    · exact h
    · cases h
  · next hne =>
    rwa [if_neg hne] at h

/-- A number ends where no word character and no point follows. -/
theorem endsBefore_of_numberKind {start : Nat} {negative : Bool} {whole fraction : List Char}
    {k : Kind} (h : numberKind start negative whole fraction = .ok k) (c : Char) :
    k.endsBefore c = !(Ascii.isWordChar c || c == '.') := by
  unfold numberKind at h
  split at h
  · simp only at h
    split at h
    · cases h
      rfl
    · cases h
  · cases h
    rfl

theorem continuesNumber_cons (c : Char) (cs : List Char) (h : c.isDigit = false) :
    continuesNumber (c :: cs) = (Ascii.isWordChar c || c == '.') := by
  simp [continuesNumber, Ascii.isWordChar, Char.isAlphanum, h]

/-- The octets of a number. -/
theorem widthOf_number {negative : Bool} {whole fraction : List Char}
    (hwhole : ∀ d ∈ whole, d.isDigit = true) (hfraction : ∀ d ∈ fraction, d.isDigit = true) :
    widthOf (signChars negative ++ (whole ++ pointed fraction)) =
      (if negative then 1 else 0) + whole.length +
        (if fraction.isEmpty then 0 else 1 + fraction.length) := by
  have hdigits {ds : List Char} (h : ∀ d ∈ ds, d.isDigit = true) : widthOf ds = ds.length :=
    widthOf_of_lt fun d hd => Ascii.toNat_lt_of_isWordChar (Ascii.isWordChar_of_isDigit (h d hd))
  have hpointed : widthOf (pointed fraction) =
      if fraction.isEmpty then 0 else 1 + fraction.length := by
    unfold pointed
    split
    · rfl
    · rw [widthOf_cons, hdigits hfraction, show '.'.utf8Size = 1 from rfl]
  have hsign : widthOf (signChars negative) = if negative then 1 else 0 := by
    cases negative <;> rfl
  rw [widthOf_append, widthOf_append, hdigits hwhole, hpointed, hsign, Nat.add_assoc]

theorem scanNumber_eq_ok {start : Nat} {negative : Bool} {cs : List Char} {t : Scanned cs}
    (h : scanNumber start negative cs = .ok t) :
    ∃ span, Spells t.kind (signChars negative ++ span) ∧
      cs = span ++ t.rest ∧ t.width = widthOf (signChars negative ++ span) ∧
        t.kind.Ends t.rest := by
  unfold scanNumber at h
  simp only at h
  split at h
  · cases h
  · next hwhole =>
    split at h
    · cases h
    · next hcontinues =>
      obtain ⟨k, hk, ht⟩ := bind_eq_ok.1 h
      cases ht
      refine ⟨_, .number hwhole (List.all_eq_true.1 List.all_takeWhile)
        (isDigit_fractionDigits _) (numberKind_eq_ok hk 0), ?_, ?_, ?_⟩
      · rw [List.append_assoc, pointed_append_afterFraction, List.takeWhile_append_dropWhile]
      · exact (widthOf_number (List.all_eq_true.1 List.all_takeWhile)
          (isDigit_fractionDigits _)).symm
      · intro c hc
        have hdigit := head_afterFraction cs c hc
        obtain ⟨cs', hcs⟩ := List.head?_eq_some_iff.1 hc
        simp only at hcs
        rw [hcs, continuesNumber_cons c cs' hdigit, Bool.not_eq_true] at hcontinues
        rw [endsBefore_of_numberKind hk, hcontinues, Bool.not_false]

theorem scanNumber_of_ends (start : Nat) {negative : Bool} {whole fraction rest : List Char}
    {k : Kind} (hne : whole ≠ []) (hwhole : ∀ d ∈ whole, d.isDigit = true)
    (hfraction : ∀ d ∈ fraction, d.isDigit = true)
    (hk : numberKind 0 negative whole fraction = .ok k) (hrest : k.Ends rest) :
    ∃ t, scanNumber start negative (whole ++ (pointed fraction ++ rest)) = .ok t ∧ t.kind = k ∧
      t.rest = rest := by
  have hends : ∀ c ∈ rest.head?, (Ascii.isWordChar c || c == '.') = false := by
    intro c hc
    have := hrest c hc
    rwa [endsBefore_of_numberKind hk, Bool.not_eq_true'] at this
  have hdigit : ∀ c ∈ rest.head?, c.isDigit = false := by
    intro c hc
    refine Bool.eq_false_iff.2 fun hd => ?_
    have := hends c hc
    rw [Ascii.isWordChar_of_isDigit hd] at this
    cases this
  have hcontinues : continuesNumber rest = false := by
    match rest with
    | [] => rfl
    | c :: rest => rw [continuesNumber_cons c rest (hdigit c rfl), hends c rfl]
  have hpoint := head_pointed_append fraction hdigit
  have hfractionDigits : fractionDigits (pointed fraction ++ rest) = fraction :=
    fractionDigits_pointed_append hfraction hdigit fun c hc hdot => by
      cases hdot
      cases hends '.' hc
  have hafter : afterFraction (pointed fraction ++ rest) = rest := by
    have h := pointed_append_afterFraction (pointed fraction ++ rest)
    rw [hfractionDigits] at h
    exact List.append_cancel_left h
  unfold scanNumber
  simp only [Text.takeWhile_append_of_head hwhole hpoint,
    Text.dropWhile_append_of_head hwhole hpoint, hfractionDigits, hafter, hcontinues,
    numberKind_eq_ok hk start]
  rw [dif_neg hne]
  exact ⟨_, rfl, rfl, rfl⟩

/-! ## Tokens at the front -/

theorem scanToken_wordStart (start : Nat) {c : Char} (h : Ascii.isWordStart c = true)
    (cs : List Char) : scanToken start c cs = .ok (scanWord c cs) := by
  rw [scanToken.eq_def]
  split
  case h_6 => simp [Ascii.isDigit_eq_false_of_isWordStart h, h]
  all_goals exact absurd h (by decide)

theorem scanToken_digit (start : Nat) {c : Char} (h : c.isDigit = true) (cs : List Char) :
    scanToken start c cs = scanNumber start false (c :: cs) := by
  rw [scanToken.eq_def]
  split
  case h_6 => rw [if_pos h]
  all_goals exact absurd h (by decide)

/-- **A token that is scanned is spelled by the characters that it takes**, and ends before the
others. -/
theorem scanToken_eq_ok {start : Nat} {c : Char} {cs : List Char} {t : Scanned (c :: cs)}
    (h : scanToken start c cs = .ok t) : ∃ span, Spells t.kind span ∧ c :: cs = span ++ t.rest ∧
      t.width = widthOf span ∧ t.kind.Ends t.rest := by
  rw [scanToken.eq_def] at h
  split at h
  · cases h
    exact ⟨['('], .openParen, rfl, rfl, fun _ _ => rfl⟩
  · cases h
    exact ⟨[')'], .closeParen, rfl, rfl, fun _ _ => rfl⟩
  · cases h
    exact ⟨[','], .comma, rfl, rfl, fun _ _ => rfl⟩
  · exact scanText_eq_ok h
  · obtain ⟨number, hnumber, ht⟩ := bind_eq_ok.1 h
    cases ht
    obtain ⟨span, hspan, hsplit, hwidth, hends⟩ := scanNumber_eq_ok hnumber
    exact ⟨'-' :: span, hspan, congrArg _ hsplit, hwidth, hends⟩
  · split at h
    · exact scanNumber_eq_ok h
    · split at h
      · next hword =>
        cases h
        refine ⟨_, .word hword (List.all_eq_true.1 List.all_takeWhile), ?_, rfl, fun d hd => ?_⟩
        · rw [List.cons_append, scanWord, List.takeWhile_append_dropWhile]
        · simp [scanWord, Kind.endsBefore, head_dropWhile _ _ d hd]
      · cases h

/-- **A token that is spelled at the front of a text is scanned there**, where it ends before the
others. -/
theorem scanToken_of_spells {k : Kind} {span rest : List Char} (h : Spells k span)
    (hrest : k.Ends rest) (start : Nat) : ∃ c cs, span ++ rest = c :: cs ∧ isGap c = false ∧
      ∃ t, scanToken start c cs = .ok t ∧ t.kind = k ∧ t.rest = rest := by
  cases h with
  | @word c cs first more =>
    have hends : ∀ d ∈ rest.head?, Ascii.isWordChar d = false := fun d hd => by
      simpa [Kind.endsBefore] using hrest d hd
    refine ⟨c, cs ++ rest, rfl,
      isGap_eq_false_of_isWordChar (Ascii.isWordChar_of_isWordStart first), _,
      scanToken_wordStart start first _, ?_, ?_⟩
    · rw [scanWord, Text.takeWhile_append_of_head more hends]
    · exact Text.dropWhile_append_of_head more hends
  | text value =>
    refine ⟨'\'', doubleQuotes value ++ '\'' :: rest, by simp, rfl, ?_⟩
    exact scanText_of_ends start hrest
  | @number _ negative whole fraction nonempty hwhole hfraction value =>
    obtain ⟨t, ht, hkind, hleft⟩ := scanNumber_of_ends start nonempty hwhole hfraction value hrest
    cases negative with
    | true =>
      refine ⟨'-', whole ++ (pointed fraction ++ rest), by simp [signChars], rfl, ?_⟩
      rw [scanToken.eq_def]
      simp only [ht]
      exact ⟨_, rfl, hkind, hleft⟩
    | false =>
      obtain ⟨d, ds, rfl⟩ := List.exists_cons_of_ne_nil nonempty
      have hd : d.isDigit = true := hwhole d List.mem_cons_self
      refine ⟨d, ds ++ (pointed fraction ++ rest), by simp [signChars],
        isGap_eq_false_of_isWordChar (Ascii.isWordChar_of_isDigit hd), t, ?_, hkind, hleft⟩
      rw [scanToken_digit start hd]
      exact ht
  | openParen => exact ⟨'(', rest, rfl, rfl, _, rfl, rfl, rfl⟩
  | closeParen => exact ⟨')', rest, rfl, rfl, _, rfl, rfl, rfl⟩
  | comma => exact ⟨',', rest, rfl, rfl, _, rfl, rfl, rfl⟩

theorem Spells.ne_nil {k : Kind} {span : List Char} (h : Spells k span) : span ≠ [] := by
  obtain ⟨c, cs, hsplit, -⟩ := scanToken_of_spells h k.ends_nil 0
  rw [List.append_nil] at hsplit
  exact hsplit ▸ List.cons_ne_nil c cs

end RequestQuery.Filter
