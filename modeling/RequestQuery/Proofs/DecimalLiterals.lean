import RequestQuery.Proofs.FiniteNumbers
import RequestQuery.Proofs.JsonValues
import RequestQuery.Proofs.LeftmostFault
import RequestQuery.Proofs.PrintedFilter

/-!
# Decimals of a filter

What a filter binds for the numbers with a fraction that stand in its text. Each is bound as the
nearest binary64 number, in the order of the text, and none is refused for its size: one beyond the
greatest finite number is bound as an infinity, while an integer beyond 64 bits is refused.

* `DecimalLiteral`: a number with a fraction as it is written.
* `floats_of_check`, `floats_of_derives`: the numbers of a predicate are those of the tokens.
* `Tiling.exists_literals`: the decimals that stand in a text.
* `floats_of_compile`: **the numbers of a filter that compiles, and which of them are finite.**
* `compile_comparison`: a column may be compared with any decimal.
-/

namespace RequestQuery

open Fallible

/-- The binary64 number of an argument. -/
def Argument.floats : Argument → List Binary64
  | .column _ => []
  | .literal l => l.value.floats

/-- The binary64 numbers that a predicate compares with, from left to right. -/
def Predicate.floats (p : Predicate) : List Binary64 := p.compared.flatMap Value.floats

namespace Filter

open Utf8

/-! ## Numbers of tokens, leaves and predicates -/

/-- The binary64 number of a token. -/
def Kind.floats : Kind → List Binary64
  | .decimal x => [x]
  | _ => []

/-- Whether a token is a number with a fraction. -/
def Kind.isDecimal : Kind → Bool
  | .decimal _ => true
  | _ => false

/-- The binary64 numbers of a leaf. -/
def Leaf.floats : Leaf → List Binary64
  | .compare _ _ literal => literal.value.floats
  | .call _ args => args.flatMap Argument.floats

/-- A predicate compares with the numbers of its filter: no call has one. -/
theorem floats_of_check {r : Resource} {f : Filter} {p : Predicate} (h : check r f = .ok p) :
    p.floats = f.leaves.flatMap Leaf.floats := by
  induction f generalizing p with
  | compare column op literal =>
    obtain ⟨-, ⟨-, rfl, rfl⟩ | ⟨-, rfl, rfl⟩ | ⟨-, rfl⟩⟩ := checkCompare_eq_ok.1 h <;> rfl
  | call function args =>
    obtain ⟨anchor, column, text, -, rfl, -, rfl⟩ := checkCall_eq_ok.1 h
    rfl
  | and left right ihl ihr =>
    obtain ⟨p₁, p₂, h₁, h₂, rfl⟩ := check_and_eq_ok.1 h
    rw [leaves, List.flatMap_append, ← ihl h₁, ← ihr h₂]
    exact List.flatMap_append
  | or left right ihl ihr =>
    obtain ⟨p₁, p₂, h₁, h₂, rfl⟩ := check_or_eq_ok.1 h
    rw [leaves, List.flatMap_append, ← ihl h₁, ← ihr h₂]
    exact List.flatMap_append
  | not inner ih =>
    obtain ⟨p₁, h₁, rfl⟩ := check_not_eq_ok.1 h
    rw [leaves, ← ih h₁]
    rfl

theorem Kind.IsWord.floats {k : Kind} {word : String} (h : k.IsWord word) : k.floats = [] := by
  obtain ⟨s, rfl, -⟩ := h
  rfl

theorem Kind.WritesLiteral.floats {k : Kind} {l : Literal} (h : k.WritesLiteral l) :
    l.value.floats = k.floats := by
  cases h with
  | text s => rfl
  | int n => rfl
  | decimal x => rfl
  | true hk => exact hk.floats.symm
  | false hk => exact hk.floats.symm
  | null hk => exact hk.floats.symm

theorem Kind.WritesArgument.floats {k : Kind} {a : Argument} (h : k.WritesArgument a) :
    a.floats = k.floats := by
  cases h with
  | literal hl => exact hl.floats
  | column _ => rfl

theorem WritesArguments.floats {ks : List Kind} {args : List Argument}
    (h : WritesArguments ks args) : args.flatMap Argument.floats = ks.flatMap Kind.floats := by
  obtain ⟨rfl, rfl⟩ | h := h
  · rfl
  induction h with
  | one ha => rw [List.flatMap_singleton, List.flatMap_singleton, ha.floats]
  | cons ha more ih =>
    rw [List.flatMap_cons, List.flatMap_cons, List.flatMap_cons, ha.floats, ih]
    rfl

/-- A filter has the numbers of its tokens. -/
theorem floats_of_derives {s : Symbol} {n : Nat} {ks : List Kind} {f : Filter}
    (h : Derives s n ks f) : f.leaves.flatMap Leaf.floats = ks.flatMap Kind.floats := by
  induction h with
  | conjunction _ ih => exact ih
  | operand _ ih => exact ih
  | primary _ _ ih => exact ih
  | or _ word _ ihl ihr | and _ word _ ihl ihr =>
    rw [leaves, List.flatMap_append, ihl, ihr, List.flatMap_append, List.flatMap_cons, word.floats,
      List.nil_append]
  | @not n ks k f negation _ ih =>
    rw [leaves, ih, List.flatMap_cons, (beginsWithNegation_cons.1 negation).1.floats,
      List.nil_append]
  | group _ ih =>
    rw [ih, List.flatMap_cons, List.flatMap_append]
    simp [Kind.floats]
  | call function hargs =>
    rw [leaves, List.flatMap_singleton, Leaf.floats, hargs.floats, List.flatMap_cons,
      List.flatMap_cons, List.flatMap_append]
    simp [Kind.floats]
  | compare column operator literal =>
    rw [leaves, List.flatMap_singleton, Leaf.floats, literal.floats, List.flatMap_cons,
      List.flatMap_cons, List.flatMap_singleton, operator.floats]
    rfl

/-! ## Decimals as they are written -/

/-- A number with a fraction as it is written: digits on both sides of a point. -/
structure DecimalLiteral where
  negative : Bool
  whole : List Char
  fraction : List Char
  whole_ne_nil : whole ≠ []
  fraction_ne_nil : fraction ≠ []
  whole_digits : ∀ d ∈ whole, d.isDigit = true
  fraction_digits : ∀ d ∈ fraction, d.isDigit = true

namespace DecimalLiteral

variable (d : DecimalLiteral)

/-- The characters of a decimal. -/
def chars : List Char := signChars d.negative ++ (d.whole ++ pointed d.fraction)

/-- The digits of a decimal, without the point. -/
def digits : ℕ := Nat.ofDigitChars 10 (d.whole ++ d.fraction) 0

/-- What a decimal writes, without its sign. -/
def magnitude : ℚ := d.digits * 10 ^ (-(d.fraction.length : ℤ))

/-- The binary64 number that a decimal is read as. -/
def nearest : Binary64 :=
  Binary64.ofDecimal d.negative d.digits (-(d.fraction.length : ℤ))

/-- **A decimal is read as a finite number exactly when it is less than `overflow`.** -/
theorem isFinite_nearest_iff : d.nearest.isFinite = true ↔ d.magnitude < Binary64.overflow :=
  Binary64.isFinite_ofDecimal_iff ..

theorem isNaN_nearest : d.nearest.isNaN = false := Binary64.isNaN_ofDecimal ..

theorem numberKind_eq :
    numberKind 0 d.negative d.whole d.fraction = .ok (.decimal d.nearest) := by
  rw [numberKind, if_neg (by simpa using d.fraction_ne_nil)]
  rfl

/-- A decimal of any size makes a token. -/
theorem spells : Spells (.decimal d.nearest) d.chars :=
  .number d.whole_ne_nil d.whole_digits d.fraction_digits d.numberKind_eq

/-- What makes a token with a binary64 number is a decimal. -/
theorem exists_of_spells {x : Binary64} {span : List Char} (h : Spells (.decimal x) span) :
    ∃ d : DecimalLiteral, span = d.chars ∧ x = d.nearest := by
  cases h with
  | @number _ negative whole fraction hne hwhole hfraction hvalue =>
    by_cases hempty : fraction = []
    · rw [hempty, numberKind, if_pos List.isEmpty_nil] at hvalue
      simp only at hvalue
      split at hvalue <;> cases hvalue
    · have hkind := numberKind_eq ⟨negative, whole, fraction, hne, hempty, hwhole, hfraction⟩
      cases Except.ok.inj (hkind.symm.trans hvalue)
      exact ⟨_, rfl, rfl⟩

/-- A decimal stands in a text that begins at the octet `start`, where a token says. -/
def StandsAt (start : Nat) (cs : List Char) (t : Token) : Prop :=
  ∃ before after, cs = before ++ (d.chars ++ after) ∧ t.start = start + widthOf before ∧
    t.stop = start + widthOf (before ++ d.chars)

variable {d}

theorem StandsAt.behind {start : Nat} {cs : List Char} {t : Token} (front : List Char)
    (h : d.StandsAt (start + widthOf front) cs t) : d.StandsAt start (front ++ cs) t := by
  obtain ⟨before, after, rfl, hstart, hstop⟩ := h
  refine ⟨front ++ before, after, by rw [List.append_assoc], ?_, ?_⟩
  · rw [hstart, widthOf_append, Nat.add_assoc]
  · rw [hstop, List.append_assoc, widthOf_append front, Nat.add_assoc]

end DecimalLiteral

/-! ## Comparisons with decimals -/

/-- The text that compares a column with a decimal. -/
def comparisonText (column : String) (op : Comparison) (d : DecimalLiteral) : String :=
  String.ofList (column.toList ++ ' ' :: (op.word.toList ++ ' ' :: d.chars))

theorem tiling_comparisonText {column : String} (hname : IsName column) (op : Comparison)
    (d : DecimalLiteral) : ∃ tokens, Tiling 0 (comparisonText column op d).toList tokens ∧
      tokens.map (·.kind) = [.word column, .word op.word, .decimal d.nearest] := by
  have hcolumn : Spells (.word column) column.toList := spells_spell hname
  have hop : Spells (.word op.word) op.word.toList := spells_spell (isName_word op)
  have hnumber (start : ℕ) : Tiling start d.chars
      [⟨.decimal d.nearest, start, start + widthOf d.chars⟩] := by
    have h := Tiling.token d.spells (Kind.ends_nil _) (.nil (start + widthOf d.chars))
    rwa [List.append_nil] at h
  have hgap : isGap ' ' = true := rfl
  rw [comparisonText, String.toList_ofList]
  exact ⟨_, .token hcolumn (Kind.ends_gap _ hgap _)
    (.gap hgap (.token hop (Kind.ends_gap _ hgap _) (.gap hgap (hnumber _)))), rfl⟩

theorem parse_comparisonText {column : String} (hname : IsName column) (op : Comparison)
    (d : DecimalLiteral) (maxDepth : Nat) : parse maxDepth (comparisonText column op d) =
      .ok (.compare column op (.decimal d.nearest)) := by
  obtain ⟨tokens, htiling, hkinds⟩ := tiling_comparisonText hname op d
  refine bind_eq_ok.2 ⟨tokens, scanFrom_eq_ok_iff.2 htiling,
    parseTokens_of_derives ?_ (Nat.zero_le _)⟩
  rw [hkinds]
  exact .conjunction (.operand (.operand_compare column (isWord_self _) (.decimal d.nearest)))

/-- **A column may be compared with any decimal**, however large. -/
theorem compile_comparison {column : String} (hname : IsName column) (op : Comparison)
    (d : DecimalLiteral) {r : Resource} {limits : Limits}
    (hallowed : r.isAllowedColumn column = true)
    (hlength : Utf8.width (comparisonText column op d) ≤ limits.maxFilterLength) :
    compile (comparisonText column op d) r limits =
      .ok (.compare column op (.float d.nearest)) := by
  have hcompare : check r (.compare column op (.decimal d.nearest)) =
      .ok (.compare column op (.float d.nearest)) :=
    checkCompare_eq_ok.2 ⟨hallowed, .inr (.inr ⟨nofun, rfl⟩)⟩
  exact compile_eq_ok_iff.2 ⟨hlength, _, parse_comparisonText hname op d _, hcompare⟩

/-! ## Decimals in a text -/

/-- **The numbers of the tokens of a text are read from decimals that stand in it.** -/
theorem Tiling.exists_literals {start : Nat} {cs : List Char} {tokens : List Token}
    (h : Tiling start cs tokens) : ∃ literals : List DecimalLiteral,
      List.Forall₂ (fun t d => d.StandsAt start cs t) (tokens.filter (·.kind.isDecimal)) literals ∧
        (tokens.map (·.kind)).flatMap Kind.floats = literals.map DecimalLiteral.nearest := by
  induction h with
  | nil start => exact ⟨[], .nil, rfl⟩
  | @gap start c cs tokens blank _ ih =>
    obtain ⟨literals, hstand, hfloats⟩ := ih
    have hwidth : widthOf [c] = 1 := utf8Size_of_isGap blank
    rw [← hwidth] at hstand
    exact ⟨literals, hstand.imp fun t d ht => ht.behind [c], hfloats⟩
  | @token start k span rest tokens spells _ _ ih =>
    obtain ⟨literals, hstand, hfloats⟩ := ih
    have hbehind := hstand.imp fun t d ht => ht.behind span
    cases k with
    | decimal x =>
      obtain ⟨d, rfl, rfl⟩ := DecimalLiteral.exists_of_spells spells
      exact ⟨d :: literals, .cons ⟨[], rest, rfl, rfl, rfl⟩ hbehind, congrArg _ hfloats⟩
    | word s => exact ⟨literals, hbehind, hfloats⟩
    | text s => exact ⟨literals, hbehind, hfloats⟩
    | int n => exact ⟨literals, hbehind, hfloats⟩
    | openParen => exact ⟨literals, hbehind, hfloats⟩
    | closeParen => exact ⟨literals, hbehind, hfloats⟩
    | comma => exact ⟨literals, hbehind, hfloats⟩

/-- **The numbers that a filter binds.** They are read from the decimals that stand in its text, in
their order. Each is a number, and it is finite exactly when its decimal is less than `overflow`; so
all of them are finite exactly when no decimal of the text is as large as that. -/
theorem floats_of_compile {source : String} {r : Resource} {limits : Limits} {p : Predicate}
    (h : compile source r limits = .ok p) :
    ∃ (tokens : List Token) (literals : List DecimalLiteral), Token.scan source = .ok tokens ∧
      List.Forall₂ (fun t d => d.StandsAt 0 source.toList t) (tokens.filter (·.kind.isDecimal))
        literals ∧
      p.floats = literals.map DecimalLiteral.nearest ∧
      (∀ d ∈ literals, d.nearest.isNaN = false ∧
        (d.nearest.isFinite = true ↔ d.magnitude < Binary64.overflow)) ∧
      ((∀ x ∈ p.floats, x.isFinite = true) ↔
        ∀ d ∈ literals, d.magnitude < Binary64.overflow) := by
  obtain ⟨f, hparse, hcheck⟩ := exists_check_of_compile h
  obtain ⟨tokens, hscan, hparse⟩ := bind_eq_ok.1 hparse
  obtain ⟨n, -, hderives⟩ := derives_of_parseTokens hparse
  obtain ⟨literals, hstand, hfloats⟩ := (scanFrom_eq_ok_iff.1 hscan).exists_literals
  have hvalues : p.floats = literals.map DecimalLiteral.nearest := by
    rw [floats_of_check hcheck, floats_of_derives hderives, hfloats]
  refine ⟨tokens, literals, hscan, hstand, hvalues,
    fun d _ => ⟨d.isNaN_nearest, d.isFinite_nearest_iff⟩, ?_⟩
  rw [hvalues, List.forall_mem_map]
  exact forall₂_congr fun d _ => d.isFinite_nearest_iff

/-- Products with a price. -/
def goods : Resource := { Resource.ofName "products" with properties := ["price"] }

/-- The tokens of a filter of products with two decimals. -/
def goodsTokens : List Token :=
  [⟨.word "price", 0, 5⟩, ⟨.word "le", 6, 8⟩, ⟨.decimal ⟨0xBFD0000000000000⟩, 9, 14⟩,
    ⟨.word "or", 15, 17⟩, ⟨.word "price", 18, 23⟩, ⟨.word "gt", 24, 26⟩,
    ⟨.decimal ⟨0x3FF8000000000000⟩, 27, 31⟩]

theorem floats_of_compile_goods :
    ∃ p, compile "price le -0.25 or price gt 1.50" goods {} = .ok p ∧
      ∃ (tokens : List Token) (literals : List DecimalLiteral),
        Token.scan "price le -0.25 or price gt 1.50" = .ok tokens ∧
        List.Forall₂ (fun t d => d.StandsAt 0 "price le -0.25 or price gt 1.50".toList t)
          (tokens.filter (·.kind.isDecimal)) literals ∧
        p.floats = literals.map DecimalLiteral.nearest ∧
        (∀ d ∈ literals, d.nearest.isNaN = false ∧
          (d.nearest.isFinite = true ↔ d.magnitude < Binary64.overflow)) ∧
        ((∀ x ∈ p.floats, x.isFinite = true) ↔
          ∀ d ∈ literals, d.magnitude < Binary64.overflow) := by
  have hscan : Token.scan "price le -0.25 or price gt 1.50" = .ok goodsTokens := by decide +kernel
  have hleft := Derives.operand_compare "price" (isWord_self Comparison.le.word)
    (.decimal ⟨0xBFD0000000000000⟩)
  have hright := Derives.operand_compare "price" (isWord_self Comparison.gt.word)
    (.decimal ⟨0x3FF8000000000000⟩)
  have hderives := Derives.or (.conjunction (.operand hleft)) (isWord_self "or") (.operand hright)
  have hparse : parse 16 "price le -0.25 or price gt 1.50" = .ok _ :=
    bind_eq_ok.2 ⟨goodsTokens, hscan, parseTokens_of_derives hderives (Nat.zero_le _)⟩
  have hlength : Utf8.width "price le -0.25 or price gt 1.50" ≤ 2048 := by decide
  have h : compile "price le -0.25 or price gt 1.50" goods {} = .ok _ :=
    compile_eq_ok_iff.2 ⟨hlength, _, hparse, rfl⟩
  exact ⟨_, h, floats_of_compile h⟩

/-- The decimal of a one, some zeros, a point and a zero. -/
def powerOfTen (zeros : ℕ) : DecimalLiteral where
  negative := false
  whole := '1' :: List.replicate zeros '0'
  fraction := ['0']
  whole_ne_nil := List.cons_ne_nil _ _
  fraction_ne_nil := List.cons_ne_nil _ _
  whole_digits := List.forall_mem_cons.2 ⟨rfl, fun _ hd => List.eq_of_mem_replicate hd ▸ rfl⟩
  fraction_digits := List.forall_mem_singleton.2 rfl

/-- A decimal beyond the greatest finite number is bound as the infinity, while the same number
without its fraction is refused. -/
theorem infinity_not_refused :
    compile (comparisonText "price" .gt (powerOfTen 309)) goods {} =
        .ok (.compare "price" .gt (.float ⟨0x7FF0000000000000⟩)) ∧
      Token.scan (String.ofList ("price gt ".toList ++ (powerOfTen 309).whole)) =
        .error (.malformed 9 .integerOutOfRange) ∧
      ¬ ∀ (source : String) (r : Resource) (limits : Limits) (p : Predicate),
        compile source r limits = .ok p → ∀ x ∈ p.floats, x.isFinite = true := by
  have hinfinity : (powerOfTen 309).nearest = ⟨0x7FF0000000000000⟩ := by decide +kernel
  have hlength : Utf8.width (comparisonText "price" .gt (powerOfTen 309)) ≤ 2048 := by
    rw [Utf8.width, comparisonText, String.toList_ofList]
    decide +kernel
  have hcompile : compile (comparisonText "price" .gt (powerOfTen 309)) goods {} =
      .ok (.compare "price" .gt (.float (powerOfTen 309).nearest)) :=
    compile_comparison (isName_of_letters rfl rfl) .gt _ (by decide) hlength
  rw [hinfinity] at hcompile
  refine ⟨hcompile, ?_, fun hfinite => ?_⟩
  · rw [Token.scan, String.toList_ofList]
    decide +kernel
  · exact absurd (hfinite _ _ _ _ hcompile _ List.mem_cons_self) (by decide)

end Filter

end RequestQuery
