import RequestQuery.Filter.Check
import RequestQuery.Proofs.ParsedFilter
import RequestQuery.Proofs.SpelledTokens

/-!
# Printed filters

A printed filter is read back as it was. Its tokens are read back from their spellings, and the
grammar derives the filter from them (`printed_of_printable`): a filter is derived by the symbol of
its connective, in parentheses it is an operand, and the printer writes parentheses just where a
filter would otherwise not be derived by the symbol that is called for.

* `Printable`: the filters whose texts are read back.
* `Printed`: what a filter is derived by from its tokens.
-/

namespace RequestQuery.Filter

/-! ## Filters that can be printed -/

/-- A literal other than a decimal. -/
def Exact : Literal → Prop
  | .decimal _ => False
  | _ => True

/-- An argument that is read back: a word that is a literal is no column. -/
def PrintableArgument : Argument → Prop
  | .column name => IsName name ∧ ¬ Kind.IsLiteralWord (.word name)
  | .literal l => Exact l

/-- A filter whose text is read back: its columns and functions have names, and its literals are no
decimals. The word `not` before a parenthesis is a negation, so it names no function. -/
def Printable : Filter → Prop
  | .compare column _ l => IsName column ∧ Exact l
  | .call function args => IsName function ∧ Ascii.sameLetters function "not" = false ∧
    ∀ a ∈ args, PrintableArgument a
  | .and left right => left.Printable ∧ right.Printable
  | .or left right => left.Printable ∧ right.Printable
  | .not inner => inner.Printable

theorem isName_word (op : Comparison) : IsName op.word := by
  cases op <;> exact isName_of_letters rfl rfl

theorem legible_literalKind {l : Literal} (h : Exact l) : (literalKind l).Legible := by
  cases l with
  | text s => trivial
  | int n => trivial
  | decimal x => exact h
  | bool b => cases b <;> exact isName_of_letters rfl rfl
  | null => exact isName_of_letters rfl rfl

theorem legible_argumentKind {a : Argument} (h : PrintableArgument a) :
    (argumentKind a).Legible := by
  cases a with
  | column name => exact h.1
  | literal l => exact legible_literalKind h

theorem legible_parenthesize {ks : List Kind} (h : ∀ k ∈ ks, k.Legible) :
    ∀ k ∈ parenthesize ks, k.Legible := by
  rw [parenthesize, List.forall_mem_cons, List.forall_mem_append, List.forall_mem_singleton]
  exact ⟨trivial, h, trivial⟩

theorem legible_parenthesizeIf {ks : List Kind} (needed : Bool) (h : ∀ k ∈ ks, k.Legible) :
    ∀ k ∈ parenthesizeIf needed ks, k.Legible := by
  cases needed with
  | false => exact h
  | true => exact legible_parenthesize h

theorem legible_intersperse {ks : List Kind} (h : ∀ k ∈ ks, k.Legible) :
    ∀ k ∈ ks.intersperse .comma, k.Legible := by
  induction ks with
  | nil => exact h
  | cons k ks ih =>
    match ks, ih with
    | [], _ => exact h
    | k' :: ks, ih =>
      rw [List.intersperse_cons_cons, List.forall_mem_cons, List.forall_mem_cons]
      exact ⟨h k List.mem_cons_self, trivial, ih fun k hk => h k (List.mem_cons_of_mem _ hk)⟩

/-- Every token of a printable filter is read back. -/
theorem legible_kinds {f : Filter} (h : f.Printable) : ∀ k ∈ f.kinds, k.Legible := by
  induction f with
  | compare column op l =>
    rw [kinds, List.forall_mem_cons, List.forall_mem_cons, List.forall_mem_singleton]
    exact ⟨h.1, isName_word op, legible_literalKind h.2⟩
  | call function args =>
    rw [kinds, List.forall_mem_cons]
    refine ⟨h.1, legible_parenthesize (legible_intersperse ?_)⟩
    rw [List.forall_mem_map]
    exact fun a ha => legible_argumentKind (h.2.2 a ha)
  | and left right ihl ihr =>
    rw [kinds, List.forall_mem_append, List.forall_mem_cons]
    exact ⟨legible_parenthesizeIf _ (ihl h.1), isName_of_letters rfl rfl,
      legible_parenthesizeIf _ (ihr h.2)⟩
  | or left right ihl ihr =>
    rw [kinds, List.forall_mem_append, List.forall_mem_cons]
    exact ⟨ihl h.1, isName_of_letters rfl rfl, legible_parenthesizeIf _ (ihr h.2)⟩
  | not inner ih =>
    rw [kinds, List.forall_mem_cons]
    exact ⟨isName_of_letters rfl rfl, legible_parenthesize (ih h)⟩

/-! ## Deriving what is printed -/

theorem writesLiteral_literalKind (l : Literal) : (literalKind l).WritesLiteral l := by
  cases l with
  | text s => exact .text s
  | int n => exact .int n
  | decimal x => exact .decimal x
  | bool b =>
    cases b with
    | false => exact .false (Kind.isWord_word.2 (Ascii.sameLetters_self _))
    | true => exact .true (Kind.isWord_word.2 (Ascii.sameLetters_self _))
  | null => exact .null (Kind.isWord_word.2 (Ascii.sameLetters_self _))

theorem writesArgument_argumentKind {a : Argument} (h : PrintableArgument a) :
    (argumentKind a).WritesArgument a := by
  cases a with
  | column name => exact .column h.2
  | literal l => exact .literal (writesLiteral_literalKind l)

theorem writesArguments_intersperse {args : List Argument} (h : ∀ a ∈ args, PrintableArgument a) :
    WritesArguments ((args.map argumentKind).intersperse .comma) args := by
  match args with
  | [] => exact .inl ⟨rfl, rfl⟩
  | a :: args =>
    refine .inr ?_
    induction args generalizing a with
    | nil => exact .one (writesArgument_argumentKind (h a List.mem_cons_self))
    | cons a' args ih =>
      rw [List.map_cons, List.map_cons, List.intersperse_cons_cons]
      exact .cons (writesArgument_argumentKind (h a List.mem_cons_self))
        (ih a' fun b hb => h b (List.mem_cons_of_mem _ hb))

/-- What a filter is derived by from its tokens: the symbol of its connective, and the weaker
ones. -/
structure Printed (f : Filter) : Prop where
  disjunction : Derives .disjunction f.nesting f.kinds f
  conjunction : f.isOr = false → Derives .conjunction f.nesting f.kinds f
  operand : (f.isOr || f.isAnd) = false → Derives .operand f.nesting f.kinds f

/-- What binds as strongly as an operand may stand anywhere. -/
theorem Printed.of_operand {f : Filter} (h : Derives .operand f.nesting f.kinds f) : Printed f :=
  ⟨.conjunction (.operand h), fun _ => .operand h, fun _ => h⟩

theorem not_beginsWithNegation_parenthesize (ks : List Kind) :
    ¬ BeginsWithNegation (parenthesize ks) := by
  rw [parenthesize, beginsWithNegation_cons]
  rintro ⟨⟨s, hs, -⟩, -⟩
  cases hs

/-- In parentheses a filter is an operand. -/
theorem Printed.parenthesized {f : Filter} (h : Printed f) :
    Derives .operand (f.nesting + 1) (parenthesize f.kinds) f :=
  .primary (not_beginsWithNegation_parenthesize _) (.group h.disjunction)

theorem Printed.operandIf {f : Filter} (h : Printed f) :
    Derives .operand (nestIf (f.isOr || f.isAnd) f.nesting)
      (parenthesizeIf (f.isOr || f.isAnd) f.kinds) f := by
  cases hneeded : f.isOr || f.isAnd with
  | false => exact h.operand hneeded
  | true => exact h.parenthesized

theorem Printed.conjunctionIf {f : Filter} (h : Printed f) :
    Derives .conjunction (nestIf f.isOr f.nesting) (parenthesizeIf f.isOr f.kinds) f := by
  cases hneeded : f.isOr with
  | false => exact h.conjunction hneeded
  | true => exact .operand h.parenthesized

theorem isWord_self (word : String) : (Kind.word word).IsWord word :=
  Kind.isWord_word.2 (Ascii.sameLetters_self word)

/-- **A filter is derived from its tokens.** -/
theorem printed_of_printable {f : Filter} (h : f.Printable) : Printed f := by
  induction f with
  | compare column op l =>
    exact .of_operand (.operand_compare column (isWord_self _) (writesLiteral_literalKind l))
  | call function args =>
    refine .of_operand (.primary ?_ (.call function (writesArguments_intersperse h.2.2)))
    rw [kinds, beginsWithNegation_cons, Kind.isWord_word, h.2.1]
    exact fun hneg => Bool.false_ne_true hneg.1
  | and left right ihl ihr =>
    have hand : Derives .conjunction (left.and right).nesting (left.and right).kinds
        (left.and right) :=
      .and (ihl h.1).conjunctionIf (isWord_self "and") (ihr h.2).operandIf
    exact ⟨.conjunction hand, fun _ => hand, nofun⟩
  | or left right ihl ihr =>
    exact ⟨.or (ihl h.1).disjunction (isWord_self "or") (ihr h.2).conjunctionIf, nofun, nofun⟩
  | not inner ih =>
    refine .of_operand (.not ?_ (ih h).parenthesized)
    rw [beginsWithNegation_cons, parenthesize, beginsWithOperator_cons]
    refine ⟨isWord_self "not", ?_⟩
    rintro ⟨op, s, hs, -⟩
    cases hs

/-! ## Whole texts -/

theorem parse_text {f : Filter} (h : f.Printable) {maxDepth : Nat} (hdepth : f.nesting ≤ maxDepth) :
    parse maxDepth f.text = .ok f := by
  obtain ⟨tokens, htokens, hkinds⟩ := scanFrom_spellAll (legible_kinds h) 0
  have hscan : Token.scan f.text = .ok tokens := by
    rw [Token.scan, text, String.toList_ofList, htokens]
  unfold parse
  rw [hscan]
  refine parseTokens_of_derives (n := f.nesting) ?_ hdepth
  rw [hkinds]
  exact (printed_of_printable h).disjunction

/-- **What is printed is read back**, as the same filter, when the limits admit the length of the
text and the nesting of its parentheses and negations. -/
theorem read_text {f : Filter} (h : f.Printable) {limits : Limits}
    (hdepth : f.nesting ≤ limits.maxFilterDepth)
    (hlength : Utf8.width f.text ≤ limits.maxFilterLength) : read f.text limits = .ok f := by
  have hcheck : checkLength f.text limits = .ok () := by
    simp only [checkLength, if_neg (Nat.not_lt.2 hlength)]
  unfold read
  rw [hcheck, parse_text h hdepth]
  rfl

/-- A filter with keywords and operators for names, a quote in a text and the least integer. -/
def awkward : Filter :=
  .and (.or (.compare "not" .ne (.text "it's ∀")) (.compare "eq" .ge (.int Int64.minValue)))
    (.and (.not (.call "or" [.column "and", .literal (.bool true)])) (.compare "null" .eq .null))

theorem read_text_awkward : awkward.Printable ∧ awkward.nesting ≤ ({} : Limits).maxFilterDepth ∧
    Utf8.width awkward.text ≤ ({} : Limits).maxFilterLength ∧
      read awkward.text {} = .ok awkward := by
  have hnot : IsName "not" := isName_of_letters rfl rfl
  have heq : IsName "eq" := isName_of_letters rfl rfl
  have hor : IsName "or" := isName_of_letters rfl rfl
  have hand : IsName "and" := isName_of_letters rfl rfl
  have hnull : IsName "null" := isName_of_letters rfl rfl
  have hargs : ∀ a ∈ [Argument.column "and", .literal (.bool true)], PrintableArgument a := by
    rw [List.forall_mem_cons, List.forall_mem_singleton]
    refine ⟨⟨hand, ?_⟩, trivial⟩
    rintro (h | h | h) <;> exact absurd (Kind.isWord_word.1 h) (by decide)
  have hprintable : awkward.Printable :=
    ⟨⟨⟨hnot, trivial⟩, heq, trivial⟩, ⟨hor, by decide, hargs⟩, hnull, trivial⟩
  have hdepth : awkward.nesting ≤ ({} : Limits).maxFilterDepth := by decide
  have hlength : Utf8.width awkward.text ≤ ({} : Limits).maxFilterLength := by decide +kernel
  exact ⟨hprintable, hdepth, hlength, read_text hprintable hdepth hlength⟩

end RequestQuery.Filter
