import RequestQuery.Proofs.ParsedFilter

/-!
# The limit on nesting

The parser of filters reads its limit at one place only, where it goes one level deeper. Two runs on
the same text with different limits therefore go in step until the run with the smaller limit is cut
off, and it is cut off where the other one goes deeper than that limit. Each level takes a token, so
a limit that is no smaller than the number of tokens never cuts anything off.

* `Shallow`: a computation that does not fail for its nesting. The scanner is one (`shallow_scan`).
* `Cuts d room x y`: of two runs, the one with the limit `d` gives `x` and the other one `y`; they
  give the same, or the first is cut off, which it is not where there is room. It passes through a
  `bind` (`Cuts.bind`), and one lemma for each parser says that it holds of the parser.
* `parse_cut_off`: the limit on nesting does nothing but cut off.
-/

namespace RequestQuery.Filter

open Fallible

variable {α β : Type}

/-! ## Computations that nest nothing -/

/-- The computation does not fail for its nesting. -/
inductive Shallow : Except Fault α → Prop
  | ok (a : α) : Shallow (.ok a)
  | error {fault : Fault} (h : ∀ max actual, fault ≠ .tooDeep max actual) : Shallow (.error fault)

namespace Shallow

theorem malformed (position : Nat) (reason : Reason) :
    Shallow (.error (.malformed position reason) : Except Fault α) := .error nofun

theorem bind {x : Except Fault α} {f : α → Except Fault β} (hx : Shallow x)
    (hf : ∀ a, Shallow (f a)) : Shallow (x >>= f) := by
  cases hx with
  | ok a => exact hf a
  | error h => exact .error h

theorem ne {x : Except Fault α} (hx : Shallow x) (max actual : Nat) :
    x ≠ .error (.tooDeep max actual) := by
  rintro rfl
  cases hx with
  | error h => exact h max actual rfl

end Shallow

theorem shallow_scanText (start : Nat) (cs : List Char) : Shallow (scanText start cs) := by
  unfold scanText
  split
  · exact .malformed ..
  · exact .ok _

theorem shallow_numberKind (start : Nat) (negative : Bool) (whole fraction : List Char) :
    Shallow (numberKind start negative whole fraction) := by
  unfold numberKind
  split
  · simp only
    split
    · exact .ok _
    · exact .malformed ..
  · exact .ok _

theorem shallow_scanNumber (start : Nat) (negative : Bool) (cs : List Char) :
    Shallow (scanNumber start negative cs) := by
  unfold scanNumber
  simp only
  split
  · exact .malformed ..
  · split
    · exact .malformed ..
    · exact (shallow_numberKind ..).bind fun _ => .ok _

theorem shallow_scanToken (start : Nat) (c : Char) (cs : List Char) :
    Shallow (scanToken start c cs) := by
  unfold scanToken
  split
  · exact .ok _
  · exact .ok _
  · exact .ok _
  · exact shallow_scanText ..
  · exact (shallow_scanNumber ..).bind fun _ => .ok _
  · split
    · exact shallow_scanNumber ..
    · split
      · exact .ok _
      · exact .malformed ..

theorem shallow_scanFrom (start : Nat) (cs : List Char) : Shallow (scanFrom start cs) := by
  fun_induction scanFrom start cs with
  | case1 start => exact .ok _
  | case2 start c cs hgap ih => exact ih
  | case3 start c cs hgap ih =>
    exact (shallow_scanToken start c cs).bind fun token => (ih token).bind fun _ => .ok _

/-- **A text that is cut into no tokens is not refused for its nesting.** -/
theorem shallow_scan (source : String) : Shallow (Token.scan source) := shallow_scanFrom ..

/-! ## Two runs in step -/

/-- The run with the limit `d` gives what the other one gives, or it is cut off, but not where there
is room. -/
inductive Cuts (d : Nat) (room : Prop) : Except Fault α → Except Fault α → Prop
  | same {x : Except Fault α} (h : Shallow x) : Cuts d room x x
  | cut {y : Except Fault α} (h : ¬ room) : Cuts d room (.error (.tooDeep d (d + 1))) y

namespace Cuts

variable {d : Nat} {room room' : Prop} {x y : Except Fault α}

theorem ok (a : α) : Cuts d room (.ok a) (.ok a) := .same (.ok a)

theorem malformed (position : Nat) (reason : Reason) :
    Cuts d room (.error (.malformed position reason) : Except Fault α)
      (.error (.malformed position reason)) :=
  .same (.malformed position reason)

theorem mono (h : Cuts d room x y) (hroom : room' → room) : Cuts d room' x y := by
  cases h with
  | same hx => exact .same hx
  | cut hno => exact .cut (mt hroom hno)

/-- Runs that are in step stay so, if they go on alike with whatever both of them give. -/
theorem bind {f g : α → Except Fault β} (h : Cuts d room x y)
    (hfg : ∀ a, x = .ok a → Cuts d room (f a) (g a)) : Cuts d room (x >>= f) (y >>= g) := by
  cases h with
  | cut hno => exact .cut hno
  | same hx =>
    cases hx with
    | ok a => exact hfg a rfl
    | error h => exact .same (.error h)

/-- What is not refused for its nesting is the same in both runs. -/
theorem eq (h : Cuts d room x y) (hx : ∀ max actual, x ≠ .error (.tooDeep max actual)) : y = x := by
  cases h with
  | same _ => rfl
  | cut _ => exact absurd rfl (hx d (d + 1))

/-- A run that is cut off goes one level deeper than its limit, and there was no room. -/
theorem of_tooDeep {max actual : Nat} (h : Cuts d room (.error (.tooDeep max actual)) y) :
    max = d ∧ actual = d + 1 ∧ ¬ room := by
  cases h with
  | same hx => exact absurd rfl (hx.ne max actual)
  | cut hno => exact ⟨rfl, rfl, hno⟩

end Cuts

/-! ## The parsers -/

variable {d d' stop depth : Nat}

/-- Going one level deeper is where the smaller limit cuts off. -/
theorem cuts_enter (hd : d ≤ d') (hdepth : depth ≤ d) : Cuts d (depth + 1 ≤ d)
    ((⟨d, stop⟩ : Bounds).enter depth) ((⟨d', stop⟩ : Bounds).enter depth) := by
  unfold Bounds.enter
  simp only
  by_cases hroom : d < depth + 1
  · obtain rfl : depth = d := by omega
    rw [if_pos hroom]
    exact .cut (by omega)
  · have hroom' : ¬ d' < depth + 1 := by omega
    rw [if_neg hroom, if_neg hroom']
    exact .ok _

/-- The limit plays no part in where a run stands. -/
theorem position_eq (tokens : List Token) :
    (⟨d, stop⟩ : Bounds).position tokens = (⟨d', stop⟩ : Bounds).position tokens := by
  cases tokens <;> rfl

/-- Arguments nest nothing. -/
theorem cuts_argumentsFrom (tokens : List Token) : Cuts d True
    (plain (argumentsFrom ⟨d, stop⟩ tokens)) (plain (argumentsFrom ⟨d', stop⟩ tokens)) := by
  match tokens with
  | [] => exact .malformed ..
  | t :: more =>
    rw [plain_argumentsFrom_cons, plain_argumentsFrom_cons]
    split
    · exact .malformed ..
    · next rest _ => exact (cuts_argumentsFrom rest).bind fun _ _ => .ok _
    · exact .ok _
    · rw [position_eq]
      exact .malformed ..
  termination_by tokens.length

theorem cuts_arguments (tokens : List Token) : Cuts d True
    (plain (arguments ⟨d, stop⟩ tokens)) (plain (arguments ⟨d', stop⟩ tokens)) := by
  unfold arguments
  split
  · exact .ok _
  · exact cuts_argumentsFrom _

/-- A comparison nests nothing. -/
theorem cuts_comparison (name : String) (tokens : List Token) : Cuts d True
    (plain (comparison ⟨d, stop⟩ name tokens)) (plain (comparison ⟨d', stop⟩ name tokens)) := by
  unfold comparison
  split
  · split
    · exact .same (.error nofun)
    · split
      · exact .malformed ..
      · split
        · exact .malformed ..
        · exact .ok _
  · rw [position_eq]
    exact .malformed ..

theorem cuts_closeGroup (p : Filter × List Token) :
    Cuts d True (closeGroup ⟨d, stop⟩ p) (closeGroup ⟨d', stop⟩ p) := by
  unfold closeGroup
  split
  · exact .ok _
  · rw [position_eq]
    exact .malformed ..

mutual

theorem cuts_disjunction {depth : Nat} (hd : d ≤ d') (hdepth : depth ≤ d) (tokens : List Token) :
    Cuts d (depth + tokens.length ≤ d) (plain (disjunction ⟨d, stop⟩ depth tokens))
      (plain (disjunction ⟨d', stop⟩ depth tokens)) := by
  rw [plain_disjunction, plain_disjunction]
  apply (cuts_conjunction hd hdepth tokens).bind
  rintro ⟨first, rest⟩ hfirst
  have hlt : rest.length < tokens.length := of_plain_eq_ok hfirst
  exact (cuts_disjuncts hd hdepth first rest).mono fun hroom => by omega
  termination_by (tokens.length, 3)

theorem cuts_disjuncts {depth : Nat} (hd : d ≤ d') (hdepth : depth ≤ d) (sofar : Filter)
    (tokens : List Token) :
    Cuts d (depth + tokens.length ≤ d) (plain (disjuncts ⟨d, stop⟩ depth sofar tokens))
      (plain (disjuncts ⟨d', stop⟩ depth sofar tokens)) := by
  match tokens with
  | [] =>
    rw [plain_disjuncts_nil, plain_disjuncts_nil]
    exact .ok _
  | t :: more =>
    rw [plain_disjuncts_cons, plain_disjuncts_cons]
    split
    · rw [List.length_cons]
      apply ((cuts_conjunction hd hdepth more).mono fun hroom => by omega).bind
      rintro ⟨next, rest⟩ hnext
      have hlt : rest.length < more.length := of_plain_eq_ok hnext
      exact (cuts_disjuncts hd hdepth _ rest).mono fun hroom => by omega
    · exact .ok _
  termination_by (tokens.length, 0)

theorem cuts_conjunction {depth : Nat} (hd : d ≤ d') (hdepth : depth ≤ d) (tokens : List Token) :
    Cuts d (depth + tokens.length ≤ d) (plain (conjunction ⟨d, stop⟩ depth tokens))
      (plain (conjunction ⟨d', stop⟩ depth tokens)) := by
  rw [plain_conjunction, plain_conjunction]
  apply (cuts_operand hd hdepth tokens).bind
  rintro ⟨first, rest⟩ hfirst
  have hlt : rest.length < tokens.length := of_plain_eq_ok hfirst
  exact (cuts_conjuncts hd hdepth first rest).mono fun hroom => by omega
  termination_by (tokens.length, 2)

theorem cuts_conjuncts {depth : Nat} (hd : d ≤ d') (hdepth : depth ≤ d) (sofar : Filter)
    (tokens : List Token) :
    Cuts d (depth + tokens.length ≤ d) (plain (conjuncts ⟨d, stop⟩ depth sofar tokens))
      (plain (conjuncts ⟨d', stop⟩ depth sofar tokens)) := by
  match tokens with
  | [] =>
    rw [plain_conjuncts_nil, plain_conjuncts_nil]
    exact .ok _
  | t :: more =>
    rw [plain_conjuncts_cons, plain_conjuncts_cons]
    split
    · rw [List.length_cons]
      apply ((cuts_operand hd hdepth more).mono fun hroom => by omega).bind
      rintro ⟨next, rest⟩ hnext
      have hlt : rest.length < more.length := of_plain_eq_ok hnext
      exact (cuts_conjuncts hd hdepth _ rest).mono fun hroom => by omega
    · exact .ok _
  termination_by (tokens.length, 0)

/-- A negation takes a token for the level that it goes deeper. -/
theorem cuts_operand {depth : Nat} (hd : d ≤ d') (hdepth : depth ≤ d) (tokens : List Token) :
    Cuts d (depth + tokens.length ≤ d) (plain (operand ⟨d, stop⟩ depth tokens))
      (plain (operand ⟨d', stop⟩ depth tokens)) := by
  rw [plain_operand, plain_operand]
  split
  · next hnegation =>
    match tokens with
    | [] => cases hnegation
    | t :: more =>
      rw [List.length_cons, List.tail_cons]
      apply ((cuts_enter hd hdepth).mono fun hroom => by omega).bind
      intro deeper hdeeper
      obtain ⟨hle, rfl⟩ := enter_eq_ok.1 hdeeper
      apply ((cuts_operand hd hle more).mono fun hroom => by omega).bind
      intro p _
      exact .ok _
  · exact cuts_primary hd hdepth tokens
  termination_by (tokens.length, 1)

/-- A group takes a token for the level that it goes deeper. -/
theorem cuts_primary {depth : Nat} (hd : d ≤ d') (hdepth : depth ≤ d) (tokens : List Token) :
    Cuts d (depth + tokens.length ≤ d) (plain (primary ⟨d, stop⟩ depth tokens))
      (plain (primary ⟨d', stop⟩ depth tokens)) := by
  match tokens with
  | [] =>
    rw [plain_primary_nil, plain_primary_nil]
    exact .malformed ..
  | ⟨.openParen, i, j⟩ :: more =>
    rw [plain_primary_group, plain_primary_group, List.length_cons]
    apply ((cuts_enter hd hdepth).mono fun hroom => by omega).bind
    intro deeper hdeeper
    obtain ⟨hle, rfl⟩ := enter_eq_ok.1 hdeeper
    apply ((cuts_disjunction hd hle more).mono fun hroom => by omega).bind
    intro p _
    exact (cuts_closeGroup p).mono fun _ => trivial
  | ⟨.word name, i, j⟩ :: more =>
    by_cases hopen : ∃ k l left, more = ⟨.openParen, k, l⟩ :: left
    · obtain ⟨k, l, left, rfl⟩ := hopen
      rw [plain_primary_call, plain_primary_call]
      apply ((cuts_arguments left).mono fun _ => trivial).bind
      intro p _
      exact .ok _
    · have hplain : ∀ k l left, more ≠ ⟨.openParen, k, l⟩ :: left :=
        fun k l left he => hopen ⟨k, l, left, he⟩
      rw [plain_primary_comparison _ _ i j name hplain,
        plain_primary_comparison _ _ i j name hplain]
      exact (cuts_comparison name more).mono fun _ => trivial
  | ⟨.text s, i, j⟩ :: more | ⟨.int s, i, j⟩ :: more | ⟨.decimal s, i, j⟩ :: more
  | ⟨.closeParen, i, j⟩ :: more | ⟨.comma, i, j⟩ :: more =>
    rw [plain_primary_of_ne _ _ more (by simp) (by simp),
      plain_primary_of_ne _ _ more (by simp) (by simp)]
    exact .malformed ..
  termination_by (tokens.length, 0)

end

/-! ## Texts -/

/-- **A run with a limit gives what one with a greater limit gives, or it is cut off.** It is not
cut off if it has no more tokens than levels. -/
theorem cuts_parse (hd : d ≤ d') (source : String) :
    Cuts d (∀ tokens, Token.scan source = .ok tokens → tokens.length ≤ d) (parse d source)
      (parse d' source) := by
  unfold parse
  apply (Cuts.same (shallow_scan source)).bind
  intro tokens hscan
  rw [parseTokens_eq, parseTokens_eq]
  apply ((cuts_disjunction hd (Nat.zero_le d) tokens).mono fun hroom => ?_).bind
  · intro p _
    unfold endFilter
    split
    · exact .ok _
    · exact .malformed ..
  · rw [Nat.zero_add]
    exact hroom tokens hscan

/-- **The limit on nesting does nothing but cut off.** What a text is read as with one limit it is
read as with a greater one, and what it is refused for it is refused for, unless it was cut off, and
then it went one level deeper than the limit. A limit that is no smaller than the number of tokens
cuts nothing off. -/
theorem parse_cut_off (hd : d ≤ d') (source : String) :
    (∀ f, parse d source = .ok f → parse d' source = .ok f) ∧
    (∀ fault, parse d source = .error fault → (∀ max actual, fault ≠ .tooDeep max actual) →
      parse d' source = .error fault) ∧
    (∀ max actual, parse d source = .error (.tooDeep max actual) → max = d ∧ actual = d + 1) ∧
    ∃ n, (∀ tokens, Token.scan source = .ok tokens → n ≤ tokens.length) ∧
      ∀ k, n ≤ k → ∀ max actual, parse k source ≠ .error (.tooDeep max actual) := by
  have hcuts := cuts_parse hd source
  refine ⟨?_, ?_, ?_, ?_⟩
  · intro f h
    rw [hcuts.eq (by rw [h]; exact nofun), h]
  · intro fault h hother
    rw [hcuts.eq (by rw [h]; rintro max actual ⟨⟩; exact hother max actual rfl), h]
  · intro max actual h
    rw [h] at hcuts
    obtain ⟨hmax, hactual, -⟩ := hcuts.of_tooDeep
    exact ⟨hmax, hactual⟩
  · refine ⟨((Token.scan source).toOption.getD []).length, ?_, ?_⟩
    · intro tokens hscan
      rw [hscan]
      exact Nat.le_refl _
    · intro k hk max actual h
      have hself := cuts_parse (Nat.le_refl k) source
      rw [h] at hself
      obtain ⟨-, -, hroom⟩ := hself.of_tooDeep
      refine hroom fun tokens hscan => ?_
      rwa [hscan] at hk

/-- The tokens of a negated group with a negation in it. -/
def negatedGroup : List Token :=
  [⟨.word "not", 0, 3⟩, ⟨.openParen, 4, 5⟩, ⟨.word "a", 5, 6⟩, ⟨.word "eq", 7, 9⟩, ⟨.int 1, 10, 11⟩,
    ⟨.word "or", 12, 14⟩, ⟨.word "NOT", 15, 18⟩, ⟨.word "b", 19, 20⟩, ⟨.word "eq", 21, 23⟩,
    ⟨.int 2, 24, 25⟩, ⟨.closeParen, 25, 26⟩]

theorem scan_negatedGroup : Token.scan "not (a eq 1 or NOT b eq 2)" = .ok negatedGroup :=
  toOption_eq_some.1 (by decide +kernel)

theorem derives_equals (column : String) (n : Int64) :
    Derives .operand 0 [.word column, .word "eq", .int n] (.compare column .eq (.int n)) :=
  .operand_compare column ⟨"eq", rfl, by decide⟩ (.int n)

theorem derives_negatedGroup : Derives .disjunction 3 (negatedGroup.map (·.kind))
    (.not (.or (.compare "a" .eq (.int 1)) (.not (.compare "b" .eq (.int 2))))) := by
  have houter : BeginsWithNegation (negatedGroup.map (·.kind)) := startsNegation_iff.1 (by decide)
  have hopen : ¬ BeginsWithNegation (negatedGroup.tail.map (·.kind)) :=
    mt startsNegation_iff.2 (by decide)
  have hinner : BeginsWithNegation ((negatedGroup.drop 6).dropLast.map (·.kind)) :=
    startsNegation_iff.1 (by decide)
  have hparts : Derives .disjunction 1 ((negatedGroup.drop 2).dropLast.map (·.kind))
      (.or (.compare "a" .eq (.int 1)) (.not (.compare "b" .eq (.int 2)))) :=
    .or (.conjunction (.operand (derives_equals "a" 1))) ⟨"or", rfl, by decide⟩
      (.operand (.not hinner (derives_equals "b" 2)))
  exact .conjunction (.operand (.not houter (.primary hopen (.group hparts))))

/-- The outer negation and the group are two levels, so the inner negation is cut off. -/
theorem parseTokens_negatedGroup (stop : Nat) :
    parseTokens ⟨2, stop⟩ negatedGroup = .error (.tooDeep 2 3) := by
  have hleft : Reads ⟨2, stop⟩ 2 ((negatedGroup.drop 2).take 3) (negatedGroup.drop 5)
      (.compare "a" .eq (.int 1)) .conjunction :=
    reads_of_derives (.operand (derives_equals "a" 1)) _ rfl (Nat.le_refl 2)
  have hinner : plain (operand ⟨2, stop⟩ 2 (negatedGroup.drop 6)) = .error (.tooDeep 2 3) := by
    rw [plain_operand, if_pos (by decide)]
    rfl
  have hparts : plain (disjunction ⟨2, stop⟩ 2 (negatedGroup.drop 2)) =
      .error (.tooDeep 2 3) := by
    rw [plain_disjunction]
    refine bind_eq_error.2 (.inr ⟨_, hleft.trans (plain_conjuncts_of_head (by decide)), ?_⟩)
    change plain (disjuncts _ 2 _ (⟨.word "or", 12, 14⟩ :: negatedGroup.drop 6)) = _
    rw [plain_disjuncts_cons, if_pos (by decide), plain_conjunction, hinner]
    rfl
  have hgroup : plain (operand ⟨2, stop⟩ 1 negatedGroup.tail) = .error (.tooDeep 2 3) := by
    rw [plain_operand, if_neg (by decide), negatedGroup, List.tail_cons, plain_primary_group]
    exact bind_eq_error.2 (.inr ⟨2, rfl, bind_eq_error.2 (.inl hparts)⟩)
  have houter : plain (operand ⟨2, stop⟩ 0 negatedGroup) = .error (.tooDeep 2 3) := by
    rw [plain_operand, if_pos (by decide)]
    exact bind_eq_error.2 (.inr ⟨1, rfl, bind_eq_error.2 (.inl hgroup)⟩)
  rw [parseTokens_eq, plain_disjunction, plain_conjunction, houter]
  rfl

/-- A negation in a negated group nests three levels deep. -/
theorem parse_cut_off_negations : 3 ≤ 16 ∧
    parse 2 "not (a eq 1 or NOT b eq 2)" = .error (.tooDeep 2 3) ∧
    ∃ f, parse 3 "not (a eq 1 or NOT b eq 2)" = .ok f ∧
      parse 16 "not (a eq 1 or NOT b eq 2)" = .ok f := by
  have htwo : parse 2 "not (a eq 1 or NOT b eq 2)" = .error (.tooDeep 2 3) :=
    bind_eq_error.2 (.inr ⟨_, scan_negatedGroup, parseTokens_negatedGroup _⟩)
  have hthree : parse 3 "not (a eq 1 or NOT b eq 2)" = .ok _ :=
    bind_eq_ok.2 ⟨_, scan_negatedGroup, parseTokens_of_derives derives_negatedGroup (Nat.le_refl 3)⟩
  exact ⟨by decide, htwo, _, hthree, (parse_cut_off (by decide) _).1 _ hthree⟩

end RequestQuery.Filter
