import RequestQuery.Filter.Parser

/-!
# The grammar of filters

The filters that a list of tokens writes, told without a parser: `Derives s n kinds filter` says
that the kinds of tokens form the symbol `s` of the grammar, write the filter, and nest parentheses
and negations `n` deep.

```
disjunction := conjunction | disjunction 'or' conjunction
conjunction := operand | conjunction 'and' operand
operand     := 'not' operand | primary
primary     := '(' disjunction ')' | word '(' arguments ')' | word operator literal
```

The rules of `or` and `and` group to the left. Of the two rules for an operand one only applies to a
list: the word `not` in front is a negation unless an operator follows it, and then it is a column.

* `Kind.WritesLiteral`, `Kind.WritesArgument`, `WritesArguments`: the parts of a primary.
* `Derives`: the grammar.
* `Token.literal?_eq_some_iff`, `Token.argument?_eq_some_iff`: what the parser takes for a literal
  and for an argument is what the grammar does.
-/

namespace RequestQuery.Filter

/-! ## Words, literals and arguments -/

namespace Kind

/-- The given word, in any case. -/
def IsWord (word : String) (k : Kind) : Prop :=
  ∃ s, k = .word s ∧ Ascii.sameLetters s word = true

/-- The word of a comparison, in any case. -/
def IsOperator (op : Comparison) (k : Kind) : Prop := k.IsWord op.word

/-- A word that is a literal. -/
def IsLiteralWord (k : Kind) : Prop := k.IsWord "true" ∨ k.IsWord "false" ∨ k.IsWord "null"

/-- The literal that a token of a kind writes. -/
inductive WritesLiteral : Kind → Literal → Prop
  | text (s : String) : WritesLiteral (.text s) (.text s)
  | int (n : Int64) : WritesLiteral (.int n) (.int n)
  | decimal (x : Binary64) : WritesLiteral (.decimal x) (.decimal x)
  | true {k : Kind} (h : k.IsWord "true") : WritesLiteral k (.bool true)
  | false {k : Kind} (h : k.IsWord "false") : WritesLiteral k (.bool false)
  | null {k : Kind} (h : k.IsWord "null") : WritesLiteral k .null

/-- The argument that a token of a kind writes: a literal, or a column for any other word. -/
inductive WritesArgument : Kind → Argument → Prop
  | literal {k : Kind} {l : Literal} (h : WritesLiteral k l) : WritesArgument k (.literal l)
  | column {s : String} (h : ¬ IsLiteralWord (.word s)) : WritesArgument (.word s) (.column s)

end Kind

/-- One argument or more, with commas between them. -/
inductive WritesSomeArguments : List Kind → List Argument → Prop
  | one {k : Kind} {a : Argument} (h : k.WritesArgument a) : WritesSomeArguments [k] [a]
  | cons {k : Kind} {a : Argument} {ks : List Kind} {as : List Argument} (h : k.WritesArgument a)
      (more : WritesSomeArguments ks as) : WritesSomeArguments (k :: .comma :: ks) (a :: as)

/-- The arguments of a call, of which there may be none. -/
def WritesArguments (ks : List Kind) (args : List Argument) : Prop :=
  (ks = [] ∧ args = []) ∨ WritesSomeArguments ks args

/-! ## The grammar -/

/-- The symbols of the grammar, from the weakest binding to the strongest. -/
inductive Symbol where
  | disjunction
  | conjunction
  | operand
  | primary

/-- The tokens begin with the word of a comparison. -/
def BeginsWithOperator (ks : List Kind) : Prop := ∃ k rest op, ks = k :: rest ∧ k.IsOperator op

/-- The tokens begin with a negation: the word `not`, with no operator right after it. -/
def BeginsWithNegation (ks : List Kind) : Prop :=
  ∃ k rest, ks = k :: rest ∧ k.IsWord "not" ∧ ¬ BeginsWithOperator rest

/-- The kinds of tokens that form a symbol of the grammar, with the filter that they write and the
depth to which parentheses and negations nest in them. -/
inductive Derives : Symbol → Nat → List Kind → Filter → Prop
  | conjunction {n : Nat} {ks : List Kind} {f : Filter} (h : Derives .conjunction n ks f) :
      Derives .disjunction n ks f
  | or {n m : Nat} {ks ls : List Kind} {k : Kind} {f g : Filter}
      (left : Derives .disjunction n ks f)
      (word : k.IsWord "or") (right : Derives .conjunction m ls g) :
      Derives .disjunction (max n m) (ks ++ k :: ls) (.or f g)
  | operand {n : Nat} {ks : List Kind} {f : Filter} (h : Derives .operand n ks f) :
      Derives .conjunction n ks f
  | and {n m : Nat} {ks ls : List Kind} {k : Kind} {f g : Filter}
      (left : Derives .conjunction n ks f)
      (word : k.IsWord "and") (right : Derives .operand m ls g) :
      Derives .conjunction (max n m) (ks ++ k :: ls) (.and f g)
  | not {n : Nat} {ks : List Kind} {k : Kind} {f : Filter} (negation : BeginsWithNegation (k :: ks))
      (inner : Derives .operand n ks f) : Derives .operand (n + 1) (k :: ks) (.not f)
  | primary {n : Nat} {ks : List Kind} {f : Filter} (plain : ¬ BeginsWithNegation ks)
      (h : Derives .primary n ks f) : Derives .operand n ks f
  | group {n : Nat} {ks : List Kind} {f : Filter} (inner : Derives .disjunction n ks f) :
      Derives .primary (n + 1) (.openParen :: (ks ++ [.closeParen])) f
  | call (function : String) {ks : List Kind} {args : List Argument} (h : WritesArguments ks args) :
      Derives .primary 0 (.word function :: .openParen :: (ks ++ [.closeParen]))
        (.call function args)
  | compare (column : String) {o k : Kind} {op : Comparison} {l : Literal}
      (operator : o.IsOperator op) (literal : k.WritesLiteral l) :
      Derives .primary 0 [.word column, o, k] (.compare column op l)

@[simp] theorem not_beginsWithOperator_nil : ¬ BeginsWithOperator [] := by
  rintro ⟨k, rest, op, h, -⟩
  cases h

@[simp] theorem beginsWithOperator_cons {k : Kind} {ks : List Kind} :
    BeginsWithOperator (k :: ks) ↔ ∃ op, k.IsOperator op := by
  constructor
  · rintro ⟨k', rest, op, h, hop⟩
    cases h
    exact ⟨op, hop⟩
  · rintro ⟨op, hop⟩
    exact ⟨k, ks, op, rfl, hop⟩

@[simp] theorem not_beginsWithNegation_nil : ¬ BeginsWithNegation [] := by
  rintro ⟨k, rest, h, -⟩
  cases h

@[simp] theorem beginsWithNegation_cons {k : Kind} {ks : List Kind} :
    BeginsWithNegation (k :: ks) ↔ k.IsWord "not" ∧ ¬ BeginsWithOperator ks := by
  constructor
  · rintro ⟨k', rest, h, hn⟩
    cases h
    exact hn
  · exact fun hn => ⟨k, ks, rfl, hn⟩

/-- A comparison is an operand, also of a column of the name `not`. -/
theorem Derives.operand_compare (column : String) {o k : Kind} {op : Comparison} {l : Literal}
    (operator : o.IsOperator op) (literal : k.WritesLiteral l) :
    Derives .operand 0 [.word column, o, k] (.compare column op l) := by
  refine .primary ?_ (.compare column operator literal)
  rw [beginsWithNegation_cons, beginsWithOperator_cons]
  exact fun h => h.2 ⟨op, operator⟩

/-- The first two tokens decide. -/
theorem beginsWithNegation_append {ks : List Kind} (h : 2 ≤ ks.length) (ls : List Kind) :
    BeginsWithNegation (ks ++ ls) ↔ BeginsWithNegation ks := by
  match ks, h with
  | k :: k' :: ks, _ => simp

/-- A filter takes two tokens or more. -/
theorem Derives.two_le_length {s : Symbol} {n : Nat} {ks : List Kind} {f : Filter}
    (h : Derives s n ks f) : 2 ≤ ks.length := by
  induction h with
  | conjunction h ih => exact ih
  | or left word right ihl ihr => rw [List.length_append]; omega
  | operand h ih => exact ih
  | and left word right ihl ihr => rw [List.length_append]; omega
  | not negation inner ih => rw [List.length_cons]; omega
  | primary plain h ih => exact ih
  | group inner ih => simp
  | call function h => simp
  | compare column operator literal => simp

/-! ## Tokens -/

namespace Kind

@[simp] theorem isWord_word {s word : String} :
    IsWord word (.word s) ↔ Ascii.sameLetters s word = true := by
  simp [IsWord]

theorem not_writesLiteral_closeParen (l : Literal) : ¬ WritesLiteral .closeParen l := by
  intro h
  cases h with
  | true hk | false hk | null hk =>
    obtain ⟨s, hs, -⟩ := hk
    cases hs

theorem not_writesArgument_closeParen (a : Argument) : ¬ WritesArgument .closeParen a := by
  intro h
  cases h with
  | literal hl => exact not_writesLiteral_closeParen _ hl

end Kind

/-- Some arguments begin with an argument. -/
theorem WritesSomeArguments.head {ks : List Kind} {args : List Argument}
    (h : WritesSomeArguments ks args) : ∃ k rest a, ks = k :: rest ∧ k.WritesArgument a := by
  cases h with
  | one ha => exact ⟨_, _, _, rfl, ha⟩
  | cons ha more => exact ⟨_, _, _, rfl, ha⟩

variable {t : Token}

theorem Token.isWord_iff {word : String} : t.isWord word = true ↔ t.kind.IsWord word := by
  unfold isWord Kind.IsWord
  cases t.kind <;> simp

/-- A word is not also a different word. -/
theorem Token.isWord_eq_false {word other : String} (h : t.kind.IsWord word)
    (hne : Ascii.sameLetters word other = false) : t.isWord other = false := by
  obtain ⟨s, hs, hword⟩ := h
  rw [Bool.eq_false_iff, ne_eq, isWord_iff, hs, Kind.isWord_word, Bool.not_eq_true]
  exact Ascii.sameLetters_eq_false hword hne

theorem Token.isOperator_iff : t.isOperator = true ↔ ∃ op, t.kind.IsOperator op := by
  unfold isOperator Kind.IsOperator Kind.IsWord
  cases t.kind <;> simp [Option.isSome_iff_exists, Comparison.ofWord?_eq_some_iff]

theorem Token.literal?_eq_some_iff {l : Literal} :
    t.literal? = some l ↔ t.kind.WritesLiteral l := by
  constructor
  · intro h
    unfold literal? at h
    split at h
    · next s hk => cases h; rw [hk]; exact .text s
    · next n hk => cases h; rw [hk]; exact .int n
    · next x hk => cases h; rw [hk]; exact .decimal x
    · next s hk =>
      rw [hk]
      split at h
      · next hs => cases h; exact .true (Kind.isWord_word.2 hs)
      · split at h
        · next hs => cases h; exact .false (Kind.isWord_word.2 hs)
        · split at h
          · next hs => cases h; exact .null (Kind.isWord_word.2 hs)
          · cases h
    · cases h
  · intro h
    obtain ⟨kind, start, stop⟩ := t
    cases h with
    | text s => rfl
    | int n => rfl
    | decimal x => rfl
    | true hk =>
      obtain ⟨s, rfl, hs⟩ := hk
      simp only [literal?, hs, if_true]
    | false hk =>
      obtain ⟨s, rfl, hs⟩ := hk
      have htrue : Ascii.sameLetters s "true" = false := Ascii.sameLetters_eq_false hs (by decide)
      simp [literal?, htrue, hs]
    | null hk =>
      obtain ⟨s, rfl, hs⟩ := hk
      have htrue : Ascii.sameLetters s "true" = false := Ascii.sameLetters_eq_false hs (by decide)
      have hfalse : Ascii.sameLetters s "false" = false := Ascii.sameLetters_eq_false hs (by decide)
      simp [literal?, htrue, hfalse, hs]

/-- A word is no literal unless it is a literal word. -/
theorem Token.literal?_eq_none_iff {s : String} (h : t.kind = .word s) :
    t.literal? = none ↔ ¬ t.kind.IsLiteralWord := by
  rw [Option.eq_none_iff_forall_ne_some]
  simp only [ne_eq, literal?_eq_some_iff]
  constructor
  · rintro hl (hk | hk | hk)
    · exact hl _ (.true hk)
    · exact hl _ (.false hk)
    · exact hl _ (.null hk)
  · intro hk l hl
    rw [h] at hl
    cases hl with
    | true ht => exact hk (.inl (h ▸ ht))
    | false hf => exact hk (.inr (.inl (h ▸ hf)))
    | null hn => exact hk (.inr (.inr (h ▸ hn)))

theorem Token.argument?_eq_some_iff {a : Argument} :
    t.argument? = some a ↔ t.kind.WritesArgument a := by
  constructor
  · intro h
    unfold argument? at h
    split at h
    · next l hl => cases h; exact .literal (literal?_eq_some_iff.1 hl)
    · next s hl hk =>
      cases h
      rw [hk]
      exact .column (hk ▸ (literal?_eq_none_iff hk).1 hl)
    · cases h
  · intro h
    unfold argument?
    generalize hk : t.kind = k at h
    cases h with
    | literal hl => rw [literal?_eq_some_iff.2 (hk ▸ hl)]
    | column hs => rw [(literal?_eq_none_iff hk).2 (hk ▸ hs)]

theorem startsNegation_iff {ts : List Token} :
    startsNegation ts = true ↔ BeginsWithNegation (ts.map (·.kind)) := by
  match ts with
  | [] => simp [startsNegation]
  | [t] => simp [startsNegation, Token.isWord_iff]
  | t :: u :: rest =>
    simp only [startsNegation, Bool.and_eq_true, Bool.not_eq_true', Token.isWord_iff, List.map_cons,
      beginsWithNegation_cons, beginsWithOperator_cons, ← Token.isOperator_iff, Bool.not_eq_true]

end RequestQuery.Filter
