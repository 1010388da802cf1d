import RequestQuery.Proofs.TokenGrammar
import RequestQuery.Proofs.Utf8Decoding

/-!
# Scanning octets

The tokens of a filter can be read off its octets, with positions in place of lists of characters:
the classes of characters that the scanner asks for are ASCII, so an octet tells by itself whether
it is a character of the class. Only where characters are wanted is the text cut, from one position
to another, and a cut inside a character has no result (`cutFrom?`, `cut?`). The scanner of octets
has one on every text, and that of `Token.scan`, so it never cuts inside a character
(`octetScan_eq`).

A position stands for the rest of the text: where the text is `before ++ rest` and the position is
the width of `before`, the octets from there on are those of `rest`, and each step of the scanner of
octets gives what the scanner of characters gives on `rest`.
-/

namespace RequestQuery.Filter

open Utf8

/-! ## Cutting a text at octets -/

/-- The text from an octet on; none if that octet is inside a character or beyond the end. -/
def cutFrom? : List Char → Nat → Option (List Char)
  | cs, 0 => some cs
  | [], _ + 1 => none
  | c :: cs, i + 1 => if c.utf8Size ≤ i + 1 then cutFrom? cs (i + 1 - c.utf8Size) else none

/-- The text up to an octet; none if that octet is inside a character or beyond the end. -/
def cutTo? : List Char → Nat → Option (List Char)
  | _, 0 => some []
  | [], _ + 1 => none
  | c :: cs, i + 1 =>
    if c.utf8Size ≤ i + 1 then (cutTo? cs (i + 1 - c.utf8Size)).map (c :: ·) else none

/-- The text from one octet to another. -/
def cut? (cs : List Char) (i j : Nat) : Option (List Char) :=
  if i ≤ j then (cutFrom? cs i).bind (cutTo? · (j - i)) else none

theorem cutFrom?_append (before rest : List Char) :
    cutFrom? (before ++ rest) (widthOf before) = some rest := by
  induction before with
  | nil => cases rest <;> rfl
  | cons c before ih =>
    obtain ⟨n, hn⟩ : ∃ n, widthOf (c :: before) = n + 1 :=
      Nat.exists_eq_add_one.2 (widthOf_pos (List.cons_ne_nil c before))
    rw [hn, List.cons_append, cutFrom?, ← hn, widthOf_cons,
      if_pos (Nat.le_add_right _ _), Nat.add_sub_cancel_left, ih]

theorem cutTo?_append (before rest : List Char) :
    cutTo? (before ++ rest) (widthOf before) = some before := by
  induction before with
  | nil => cases rest <;> rfl
  | cons c before ih =>
    obtain ⟨n, hn⟩ : ∃ n, widthOf (c :: before) = n + 1 :=
      Nat.exists_eq_add_one.2 (widthOf_pos (List.cons_ne_nil c before))
    rw [hn, List.cons_append, cutTo?, ← hn, widthOf_cons,
      if_pos (Nat.le_add_right _ _), Nat.add_sub_cancel_left, ih]
    rfl

/-- `RestAt cs i rest`: the text `cs` goes on with `rest` from the octet `i`, which is not inside a
character. -/
def RestAt (cs : List Char) (i : Nat) (rest : List Char) : Prop :=
  ∃ before, cs = before ++ rest ∧ i = widthOf before

namespace RestAt

variable {cs rest : List Char} {i : Nat}

theorem start (cs : List Char) : RestAt cs 0 cs := ⟨[], rfl, rfl⟩

/-- Behind a span the text goes on with what follows it. -/
theorem skip {span : List Char} (h : RestAt cs i (span ++ rest)) :
    RestAt cs (i + widthOf span) rest := by
  obtain ⟨before, rfl, rfl⟩ := h
  exact ⟨before ++ span, (List.append_assoc ..).symm, (widthOf_append ..).symm⟩

theorem skip_cons {c : Char} (h : RestAt cs i (c :: rest)) : RestAt cs (i + c.utf8Size) rest :=
  have hspan : RestAt cs i ([c] ++ rest) := h
  hspan.skip

theorem cutFrom?_eq (h : RestAt cs i rest) : cutFrom? cs i = some rest := by
  obtain ⟨before, rfl, rfl⟩ := h
  exact cutFrom?_append before rest

/-- A span is cut out where it stands. -/
theorem cut?_eq {span : List Char} (h : RestAt cs i (span ++ rest)) :
    cut? cs i (i + widthOf span) = some span := by
  rw [cut?, if_pos (Nat.le_add_right _ _), h.cutFrom?_eq, Option.bind_some,
    Nat.add_sub_cancel_left, cutTo?_append]

end RestAt

/-! ## The scanner of octets -/

/-- Whether an octet is a character of a class of ASCII. -/
def isOctetOf (p : Char → Bool) (octet : UInt8) : Bool :=
  octet.toNat < 0x80 && p (Char.ofNat octet.toNat)

/-- Whether there is a character of a class of ASCII at a position. -/
def isAt (octets : List UInt8) (p : Char → Bool) (i : Nat) : Bool :=
  octets[i]?.any (isOctetOf p)

/-- The position where a run of characters of a class of ASCII ends. -/
def runEnd (octets : List UInt8) (p : Char → Bool) (i : Nat) : Nat :=
  i + ((octets.drop i).takeWhile (isOctetOf p)).length

/-- The text up to a lone quote, and the number of octets before that quote and the given ones. -/
def closingQuote? (offset : Nat) : List Char → Option (List Char × Nat)
  | [] => none
  | '\'' :: '\'' :: cs =>
    (closingQuote? (offset + 2) cs).map fun (value, stop) => ('\'' :: value, stop)
  | '\'' :: _ => some ([], offset)
  | c :: cs => (closingQuote? (offset + c.utf8Size) cs).map fun (value, stop) => (c :: value, stop)

/-- A token with the position where it stops. -/
abbrev Stopped : Type := Option (Except Fault (Kind × Nat))

/-- The quoted text that begins at a position. -/
def textAt (cs : List Char) (i : Nat) : Stopped :=
  (cutFrom? cs (i + 1)).map fun inside =>
    match closingQuote? 0 inside with
    | none => .error (.malformed i .unterminatedText)
    | some (value, offset) => .ok (.text (String.ofList value), i + 1 + offset + 1)

/-- The number that a sign, digits and perhaps a fraction write. -/
def numberOf (i : Nat) : List Char → Except Fault Kind
  | '-' :: ds =>
    numberKind i true (ds.takeWhile Char.isDigit) (fractionDigits (ds.dropWhile Char.isDigit))
  | ds =>
    numberKind i false (ds.takeWhile Char.isDigit) (fractionDigits (ds.dropWhile Char.isDigit))

/-- The number that begins at a position. -/
def numberAt (cs : List Char) (octets : List UInt8) (i : Nat) : Stopped :=
  let first := if isAt octets (· == '-') i then i + 1 else i
  let whole := runEnd octets Char.isDigit first
  let stop :=
    if isAt octets (· == '.') whole && isAt octets Char.isDigit (whole + 1) then
      runEnd octets Char.isDigit (whole + 1)
    else whole
  if whole = first then some (.error (.malformed i .numberExpected))
  else if isAt octets (fun c => c.isAlpha || c == '_' || c == '.') stop then
    some (.error (.malformed stop .malformedNumber))
  else (cut? cs i stop).map fun written => (numberOf i written).map fun kind => (kind, stop)

/-- The token that begins at a position, where there is no blank. -/
def tokenAt (cs : List Char) (octets : List UInt8) (i : Nat) : Stopped :=
  if isAt octets (· == '(') i then some (.ok (.openParen, i + 1))
  else if isAt octets (· == ')') i then some (.ok (.closeParen, i + 1))
  else if isAt octets (· == ',') i then some (.ok (.comma, i + 1))
  else if isAt octets (· == '\'') i then textAt cs i
  else if isAt octets (fun c => c == '-' || c.isDigit) i then numberAt cs octets i
  else if isAt octets Ascii.isWordStart i then
    let stop := runEnd octets Ascii.isWordChar i
    (cut? cs i stop).map fun word => .ok (.word (String.ofList word), stop)
  else
    (cutFrom? cs i).map fun rest =>
      .error (.malformed i (.unexpectedCharacter (rest.headD '?')))

/-- The tokens from a position on. A token that took no octet would have no result either. -/
def tokensAt (cs : List Char) (octets : List UInt8) (i : Nat) :
    Option (Except Fault (List Token)) :=
  if i < octets.length then
    if isAt octets isGap i then tokensAt cs octets (i + 1)
    else
      match tokenAt cs octets i with
      | none => none
      | some (.error fault) => some (.error fault)
      | some (.ok (kind, stop)) =>
        if i < stop then
          (tokensAt cs octets stop).map fun more => more.map (⟨kind, i, stop⟩ :: ·)
        else none
  else some (.ok [])
  termination_by octets.length - i

/-- The tokens of a filter text, read off its octets; none if the text is cut inside a character. -/
def octetScan (source : String) : Option (Except Fault (List Token)) :=
  tokensAt source.toList (encode source.toList) 0

/-! ## Classes of ASCII -/

/-- A class of characters of ASCII. -/
def IsAscii (p : Char → Bool) : Prop := ∀ c, p c = true → c.toNat < 0x80

theorem isAscii_beq {c : Char} (h : c.toNat < 0x80) : IsAscii (· == c) := by
  intro d hd
  rwa [eq_of_beq hd]

theorem IsAscii.or {p q : Char → Bool} (hp : IsAscii p) (hq : IsAscii q) :
    IsAscii fun c => p c || q c := by
  intro c hc
  rw [Bool.or_eq_true] at hc
  exact hc.elim (hp c) (hq c)

theorem isAscii_isWordChar : IsAscii Ascii.isWordChar := fun _ => Ascii.toNat_lt_of_isWordChar

theorem isAscii_isWordStart : IsAscii Ascii.isWordStart :=
  fun _ h => Ascii.toNat_lt_of_isWordChar (Ascii.isWordChar_of_isWordStart h)

theorem isAscii_isDigit : IsAscii Char.isDigit :=
  fun _ h => Ascii.toNat_lt_of_isWordChar (Ascii.isWordChar_of_isDigit h)

theorem isAscii_isGap : IsAscii isGap :=
  (((isAscii_beq (by decide)).or (isAscii_beq (by decide))).or (isAscii_beq (by decide))).or
    (isAscii_beq (by decide))

theorem isAscii_continuesNumber : IsAscii fun c => c.isAlpha || c == '_' || c == '.' :=
  isAscii_isWordStart.or (isAscii_beq (by decide))

/-- The first octet of a character tells whether it is in a class of ASCII. -/
theorem any_isOctetOf_encodeChar {p : Char → Bool} (hp : IsAscii p) (c : Char) :
    (String.utf8EncodeChar c).head?.any (isOctetOf p) = p c := by
  by_cases hc : c.toNat < 0x80
  · have hnat : (UInt8.ofNat c.toNat).toNat = c.toNat :=
      UInt8.toNat_ofNat_of_lt' (Nat.lt_trans hc (by decide))
    simp [encodeChar_of_lt hc, isOctetOf, hnat, hc]
  · have hout : p c = false := Bool.eq_false_iff.2 fun h => hc (hp c h)
    rw [hout, Option.any_eq_false]
    intro octet hoctet
    have hle := le_of_mem_encodeChar (Nat.not_lt.1 hc) octet (List.mem_of_mem_head? hoctet)
    simp [isOctetOf, Nat.not_lt.2 hle]

/-! ## Positions -/

section Positions

variable {cs rest : List Char} {i : Nat} {p : Char → Bool}

theorem RestAt.drop_encode (h : RestAt cs i rest) : (encode cs).drop i = encode rest := by
  obtain ⟨before, rfl, rfl⟩ := h
  rw [encode_append, ← length_encode, List.drop_left]

theorem RestAt.length_encode (h : RestAt cs i rest) :
    (encode cs).length = i + widthOf rest := by
  obtain ⟨before, rfl, rfl⟩ := h
  rw [Utf8.length_encode, widthOf_append]

theorem RestAt.lt_length {c : Char} (h : RestAt cs i (c :: rest)) : i < (encode cs).length := by
  rw [h.length_encode]
  exact Nat.lt_add_of_pos_right (widthOf_pos (List.cons_ne_nil c rest))

/-- At a position stands the first character of the rest. -/
theorem RestAt.isAt_eq (h : RestAt cs i rest) (hp : IsAscii p) :
    isAt (encode cs) p i = rest.head?.any p := by
  rw [isAt, ← List.head?_drop, h.drop_encode]
  cases rest with
  | nil => rfl
  | cons c rest =>
    obtain ⟨octet, octets, ho⟩ := List.exists_cons_of_ne_nil (String.utf8EncodeChar_ne_nil (c := c))
    rw [List.head?_cons, Option.any_some, ← any_isOctetOf_encodeChar hp c, encode_cons, ho]
    rfl

/-- A run of characters of ASCII takes the octets of its characters. -/
theorem length_takeWhile_encode (hp : IsAscii p) (cs : List Char) :
    ((encode cs).takeWhile (isOctetOf p)).length = widthOf (cs.takeWhile p) := by
  induction cs with
  | nil => rfl
  | cons c cs ih =>
    have hhead := any_isOctetOf_encodeChar hp c
    by_cases hc : p c = true
    · rw [encodeChar_of_lt (hp c hc), List.head?_cons, Option.any_some, hc] at hhead
      rw [encode_cons, encodeChar_of_lt (hp c hc), List.singleton_append,
        List.takeWhile_cons_of_pos hhead, List.takeWhile_cons_of_pos hc, List.length_cons, ih,
        widthOf_cons, utf8Size_of_lt (hp c hc), Nat.add_comm]
    · obtain ⟨octet, octets, ho⟩ :=
        List.exists_cons_of_ne_nil (String.utf8EncodeChar_ne_nil (c := c))
      rw [ho, List.head?_cons, Option.any_some] at hhead
      rw [encode_cons, ho, List.cons_append, List.takeWhile_cons_of_neg (by rwa [hhead]),
        List.takeWhile_cons_of_neg hc]
      rfl

theorem RestAt.runEnd_eq (h : RestAt cs i rest) (hp : IsAscii p) :
    runEnd (encode cs) p i = i + widthOf (rest.takeWhile p) := by
  rw [runEnd, h.drop_encode, length_takeWhile_encode hp]

end Positions

/-- What the scanner of octets gives for a token: its kind and the position where it stops. -/
def stopped {cs : List Char} (i : Nat) (x : Except Fault (Scanned cs)) : Stopped :=
  some (x.map fun t => (t.kind, i + t.width))

/-! ## Quoted texts -/

theorem closingQuote?_eq (offset : Nat) (cs : List Char) : closingQuote? offset cs =
    (unquote? cs).map fun (value, _) => (value, offset + widthOf (doubleQuotes value)) := by
  fun_induction unquote? cs generalizing offset with
  | case1 => rfl
  | case2 cs ih =>
    rw [closingQuote?, ih]
    cases unquote? cs with
    | none => rfl
    | some p => simp [doubleQuotes_cons_quote, show '\''.utf8Size = 1 from rfl]; omega
  | case3 cs hlone =>
    rw [closingQuote?]
    · rfl
    · exact hlone
  | case4 c cs _ hc ih =>
    rw [closingQuote?, ih]
    · cases unquote? cs with
      | none => rfl
      | some p => simp [doubleQuotes_cons_of_ne hc]; omega
    · rintro cs' rfl
      exact absurd rfl hc
    · exact hc

theorem textAt_eq {cs rest : List Char} {i : Nat} (h : RestAt cs i ('\'' :: rest)) :
    textAt cs i = stopped i (scanText i rest) := by
  have hcut : cutFrom? cs (i + 1) = some rest := h.skip_cons.cutFrom?_eq
  rw [textAt, hcut, Option.map_some, closingQuote?_eq]
  cases hunquote : unquote? rest with
  | none =>
    rw [scanText_of_none _ hunquote]
    rfl
  | some p =>
    obtain ⟨value, left⟩ := p
    obtain ⟨t, ht, hkind, hwidth, -⟩ := scanText_of_some i hunquote
    have hstop : i + quotedWidth value = i + 1 + (0 + widthOf (doubleQuotes value)) + 1 := by
      rw [quotedWidth, widthOf_doubleQuotes]
      omega
    rw [ht]
    change _ = some (Except.ok (t.kind, i + t.width))
    rw [hkind, hwidth, hstop]
    rfl

/-! ## Numbers -/

/-- The end of a number with its fraction: a point is a part of it if a digit follows. -/
theorem fractionEnd_eq {cs rest : List Char} {i : Nat} (h : RestAt cs i rest) :
    (if isAt (encode cs) (· == '.') i && isAt (encode cs) Char.isDigit (i + 1) then
        runEnd (encode cs) Char.isDigit (i + 1)
      else i) = i + widthOf (pointed (fractionDigits rest)) := by
  rw [h.isAt_eq (isAscii_beq (by decide))]
  match rest with
  | [] => rfl
  | c :: more =>
    by_cases hc : c = '.'
    · subst hc
      have hmore : RestAt cs (i + 1) more := h.skip_cons
      rw [hmore.isAt_eq isAscii_isDigit, hmore.runEnd_eq isAscii_isDigit, fractionDigits]
      cases more with
      | nil => rfl
      | cons d more =>
        cases hd : d.isDigit with
        | true => simp [hd, pointed, show '.'.utf8Size = 1 from rfl, Nat.add_assoc]
        | false => simp [hd, pointed]
    · simp [fractionDigits, hc, pointed]

theorem continuesNumber_eq (cs : List Char) : continuesNumber cs =
    cs.head?.any fun c => c.isAlpha || c == '_' || c == '.' := by
  cases cs <;> rfl

/-- The number that was written is read. -/
theorem numberOf_eq (i : Nat) (negative : Bool) {whole fraction : List Char} (hne : whole ≠ [])
    (hwhole : ∀ d ∈ whole, d.isDigit = true) (hfraction : ∀ d ∈ fraction, d.isDigit = true) :
    numberOf i (signChars negative ++ (whole ++ pointed fraction)) =
      numberKind i negative whole fraction := by
  have hpoint : ∀ c ∈ (pointed fraction ++ []).head?, c.isDigit = false :=
    head_pointed_append fraction nofun
  have hdigits : fractionDigits (pointed fraction ++ []) = fraction :=
    fractionDigits_pointed_append hfraction nofun nofun
  rw [List.append_nil] at hpoint hdigits
  cases negative with
  | true =>
    simp only [signChars, if_true, List.singleton_append, numberOf,
      Text.takeWhile_append_of_head hwhole hpoint, Text.dropWhile_append_of_head hwhole hpoint,
      hdigits]
  | false =>
    obtain ⟨d, ds, rfl⟩ := List.exists_cons_of_ne_nil hne
    rw [signChars, if_neg Bool.false_ne_true, List.nil_append, numberOf,
      Text.takeWhile_append_of_head hwhole hpoint, Text.dropWhile_append_of_head hwhole hpoint,
      hdigits]
    rintro ds' he
    obtain ⟨rfl, -⟩ := List.cons.inj he
    cases hwhole '-' List.mem_cons_self

/-- A number stands before what is left after its fraction. -/
theorem RestAt.number {cs ds : List Char} {i : Nat} {negative : Bool}
    (h : RestAt cs i (signChars negative ++ ds)) :
    RestAt cs i ((signChars negative ++ (ds.takeWhile Char.isDigit ++
      pointed (fractionDigits (ds.dropWhile Char.isDigit)))) ++
        afterFraction (ds.dropWhile Char.isDigit)) := by
  rwa [List.append_assoc, List.append_assoc, pointed_append_afterFraction,
    List.takeWhile_append_dropWhile]

/-- The scanner of characters on a number, by the position where it stops. -/
theorem stopped_scanNumber (i : Nat) (negative : Bool) (ds : List Char) :
    let whole := ds.takeWhile Char.isDigit
    let fraction := fractionDigits (ds.dropWhile Char.isDigit)
    let stop := i + widthOf (signChars negative ++ (whole ++ pointed fraction))
    stopped i (scanNumber i negative ds) =
      if whole = [] then some (.error (.malformed i .numberExpected))
      else if continuesNumber (afterFraction (ds.dropWhile Char.isDigit)) then
        some (.error (.malformed stop .malformedNumber))
      else some ((numberKind i negative whole fraction).map fun kind => (kind, stop)) := by
  intro whole fraction stop
  have hstop : stop = i + ((if negative then 1 else 0) + whole.length +
      (if fraction.isEmpty then 0 else 1 + fraction.length)) := by
    rw [← widthOf_number (List.all_eq_true.1 List.all_takeWhile) (isDigit_fractionDigits _)]
  rw [hstop]
  unfold stopped scanNumber
  simp only
  by_cases hne : whole = []
  · rw [dif_pos hne, if_pos hne]
    rfl
  · rw [dif_neg hne, if_neg hne]
    split
    · rfl
    · cases numberKind i negative whole fraction <;> rfl

theorem numberAt_eq {cs ds : List Char} {i : Nat} (negative : Bool)
    (h : RestAt cs i (signChars negative ++ ds))
    (hsign : negative = false → ∀ c ∈ ds.head?, c ≠ '-') :
    numberAt cs (encode cs) i = stopped i (scanNumber i negative ds) := by
  have hfirst : (if isAt (encode cs) (· == '-') i then i + 1 else i) =
      i + widthOf (signChars negative) := by
    rw [h.isAt_eq (isAscii_beq (by decide))]
    cases negative with
    | true => rfl
    | false =>
      have hnone : ds.head?.any (· == '-') = false := by
        rw [Option.any_eq_false]
        simpa using hsign rfl
      simp [signChars, hnone]
  rw [stopped_scanNumber]
  -- The text is cut into the sign, the digits, the fraction and what is left.
  have hwhole : ∀ d ∈ ds.takeWhile Char.isDigit, d.isDigit = true :=
    List.all_eq_true.1 List.all_takeWhile
  have hdigits := h.skip
  have hcut := h.number
  have hrun := hdigits.runEnd_eq isAscii_isDigit
  have hsplit := List.takeWhile_append_dropWhile (p := Char.isDigit) (l := ds)
  generalize ds.takeWhile Char.isDigit = whole at hwhole hcut hrun hsplit ⊢
  generalize ds.dropWhile Char.isDigit = after at hcut hsplit ⊢
  subst hsplit
  have hfraction := isDigit_fractionDigits after
  have hpoint := fractionEnd_eq hdigits.skip
  have hstop : i + widthOf (signChars negative) + widthOf whole +
      widthOf (pointed (fractionDigits after)) =
        i + widthOf (signChars negative ++ (whole ++ pointed (fractionDigits after))) := by
    simp only [widthOf_append, Nat.add_assoc]
  rw [hstop] at hpoint
  have hcontinues := hcut.skip.isAt_eq isAscii_continuesNumber
  rw [← continuesNumber_eq] at hcontinues
  have hnone : i + widthOf (signChars negative) + widthOf whole = i + widthOf (signChars negative) ↔
      whole = [] := by
    refine ⟨fun h => Classical.not_not.1 fun hne => ?_, by rintro rfl; rfl⟩
    have := widthOf_pos hne
    omega
  unfold numberAt
  simp only [hfirst, hrun, hpoint, hcontinues, hnone]
  by_cases hne : whole = []
  · rw [if_pos hne, if_pos hne]
  · rw [if_neg hne, if_neg hne, hcut.cut?_eq, Option.map_some,
      numberOf_eq i negative hne hwhole hfraction]

/-! ## Tokens -/

theorem tokenAt_eq {cs rest : List Char} {c : Char} {i : Nat} (h : RestAt cs i (c :: rest)) :
    tokenAt cs (encode cs) i = stopped i (scanToken i c rest) := by
  have hc {p : Char → Bool} (hp : IsAscii p) : isAt (encode cs) p i = p c := h.isAt_eq hp
  unfold tokenAt
  simp only [hc (isAscii_beq (c := '(') (by decide)), hc (isAscii_beq (c := ')') (by decide)),
    hc (isAscii_beq (c := ',') (by decide)), hc (isAscii_beq (c := '\'') (by decide)),
    hc ((isAscii_beq (c := '-') (by decide)).or isAscii_isDigit), hc isAscii_isWordStart]
  by_cases hopen : c = '('
  · subst hopen
    rfl
  by_cases hclose : c = ')'
  · subst hclose
    rfl
  by_cases hcomma : c = ','
  · subst hcomma
    rfl
  by_cases hquote : c = '\''
  · subst hquote
    exact textAt_eq h
  by_cases hminus : c = '-'
  · subst hminus
    refine (numberAt_eq true h nofun).trans ?_
    rw [scanToken.eq_def]
    cases hnumber : scanNumber i true rest <;> simp only [hnumber] <;> rfl
  have hscan : scanToken i c rest = if c.isDigit then scanNumber i false (c :: rest)
      else if Ascii.isWordStart c then .ok (scanWord c rest)
      else .error (.malformed i (.unexpectedCharacter c)) := by
    rw [scanToken]
    all_goals assumption
  rw [hscan]
  simp only [beq_iff_eq, hopen, hclose, hcomma, hquote, hminus, if_false, Bool.or_eq_true, false_or]
  by_cases hdigit : c.isDigit = true
  · rw [if_pos hdigit, if_pos hdigit]
    exact numberAt_eq false h fun _ d hd => by
      obtain rfl : c = d := by simpa using hd
      exact hminus
  rw [if_neg hdigit, if_neg hdigit]
  by_cases hword : Ascii.isWordStart c = true
  · have hspan : RestAt cs i ((c :: rest.takeWhile Ascii.isWordChar) ++
        rest.dropWhile Ascii.isWordChar) := by
      rwa [List.cons_append, List.takeWhile_append_dropWhile]
    rw [if_pos hword, if_pos hword, h.runEnd_eq isAscii_isWordChar,
      List.takeWhile_cons_of_pos (Ascii.isWordChar_of_isWordStart hword), hspan.cut?_eq]
    rfl
  · rw [if_neg hword, if_neg hword, h.cutFrom?_eq]
    rfl

/-- Behind a token the text goes on with what the token leaves, at a later position. -/
theorem RestAt.token {cs rest : List Char} {c : Char} {i : Nat} (h : RestAt cs i (c :: rest))
    {t : Scanned (c :: rest)} (ht : scanToken i c rest = .ok t) :
    RestAt cs (i + t.width) t.rest ∧ i < i + t.width := by
  obtain ⟨span, hspan, hsplit, hwidth, -⟩ := scanToken_eq_ok ht
  rw [hsplit] at h
  rw [hwidth]
  exact ⟨h.skip, Nat.lt_add_of_pos_right (widthOf_pos hspan.ne_nil)⟩

/-- From a position on, the octets are scanned as the rest of the text is. -/
theorem tokensAt_eq {cs rest : List Char} {i : Nat} (h : RestAt cs i rest) :
    tokensAt cs (encode cs) i = some (scanFrom i rest) := by
  fun_induction scanFrom i rest with
  | case1 i =>
    rw [tokensAt, if_neg (by rw [h.length_encode, widthOf_nil]; exact Nat.lt_irrefl i)]
  | case2 i c rest hgap ih =>
    have hmore : RestAt cs (i + 1) rest := utf8Size_of_isGap hgap ▸ h.skip_cons
    rw [tokensAt, if_pos h.lt_length, h.isAt_eq isAscii_isGap, List.head?_cons, Option.any_some,
      if_pos hgap, ih hmore]
  | case3 i c rest hgap ih =>
    rw [tokensAt, if_pos h.lt_length, h.isAt_eq isAscii_isGap, List.head?_cons, Option.any_some,
      if_neg hgap, tokenAt_eq h]
    cases ht : scanToken i c rest with
    | error fault => rfl
    | ok t =>
      obtain ⟨hmore, hpos⟩ := h.token ht
      change (if i < i + t.width then (tokensAt cs (encode cs) (i + t.width)).map _ else none) =
        some (scanFrom (i + t.width) t.rest >>= _)
      rw [if_pos hpos, ih t hmore]
      cases scanFrom (i + t.width) t.rest <;> rfl

/-- **Reading tokens off the octets of a text never cuts it inside a character**, and gives the
tokens of the text or its fault. -/
theorem octetScan_eq (source : String) : octetScan source = some (Token.scan source) :=
  tokensAt_eq (.start _)

end RequestQuery.Filter
