import Mathlib.Control.Monad.Basic
import RequestQuery.Filter.Check
import RequestQuery.Proofs.OctetScan
import RequestQuery.Proofs.ParserSteps
import RequestQuery.Proofs.TokenSpans

/-!
# Where a filter is faulty

The position that a malformed filter is refused with is one of its text: no further than its end,
and not inside a character. The scanner stops where a token would have to begin or, within a number,
where a character may not follow. The parser stops where one of the tokens begins, or at the end of
the text: whatever it does, the tokens that it leaves are among those that it was given (`Placed`),
which passes through a `bind` (`Placed.bind`), and one lemma for each parser says that it holds of
the parser. The check of a filter that was parsed refuses nothing as malformed.

* `failsWith_scanFrom`: where the scanner stops; `placed_disjunction` and its neighbours: where the
  parsers stop.
* `tokens_tile`: the tokens of a text tile it, and its faults have a place in it.
-/

namespace RequestQuery.Filter

open Fallible Utf8

/-! ## The scanner -/

/-- An octet of a text that begins a character, or the end of the text. -/
def IsBoundary (cs : List Char) (i : Nat) : Prop := ∃ rest, RestAt cs i rest

theorem IsBoundary.le {cs : List Char} {i : Nat} (h : IsBoundary cs i) : i ≤ widthOf cs := by
  obtain ⟨rest, before, rfl, rfl⟩ := h
  rw [widthOf_append]
  exact Nat.le_add_right _ _

theorem IsBoundary.end (cs : List Char) : IsBoundary cs (widthOf cs) :=
  ⟨[], cs, (List.append_nil cs).symm, rfl⟩

/-- A fault that is not of the text of a filter but of what it says. -/
def NotMalformed (fault : Fault) : Prop := ∀ position reason, fault ≠ .malformed position reason

/-- A fault of a text: it is malformed somewhere. -/
def FaultIn (cs : List Char) (fault : Fault) : Prop :=
  ∃ position reason, fault = .malformed position reason ∧ IsBoundary cs position

section Scanner

variable {α : Type} {cs rest : List Char} {i : Nat}

theorem RestAt.failsWith (h : RestAt cs i rest) (reason : Reason) :
    FailsWith (FaultIn cs) (.error (.malformed i reason) : Except Fault α) :=
  .error ⟨i, reason, rfl, rest, h⟩

theorem failsWith_numberKind (negative : Bool) (whole fraction : List Char)
    (h : RestAt cs i rest) : FailsWith (FaultIn cs) (numberKind i negative whole fraction) := by
  unfold numberKind
  split
  · simp only
    split
    · exact .ok _
    · exact h.failsWith _
  · exact .ok _

/-- A number is refused where it begins or where it goes on. -/
theorem failsWith_scanNumber (negative : Bool) (h : RestAt cs i (signChars negative ++ rest)) :
    FailsWith (FaultIn cs) (scanNumber i negative rest) := by
  unfold scanNumber
  simp only
  split
  · exact h.failsWith _
  · split
    · rw [← widthOf_number (List.all_eq_true.1 List.all_takeWhile) (isDigit_fractionDigits _)]
      exact h.number.skip.failsWith _
    · exact (failsWith_numberKind _ _ _ h).bind fun _ _ => .ok _

theorem failsWith_scanToken {c : Char} (h : RestAt cs i (c :: rest)) :
    FailsWith (FaultIn cs) (scanToken i c rest) := by
  rw [scanToken.eq_def]
  split
  · exact .ok _
  · exact .ok _
  · exact .ok _
  · cases hunquote : unquote? rest with
    | none =>
      rw [scanText_of_none i hunquote]
      exact h.failsWith _
    | some p =>
      obtain ⟨t, ht, -⟩ := scanText_of_some i hunquote
      rw [ht]
      exact .ok _
  · exact (failsWith_scanNumber true h).bind fun _ _ => .ok _
  · split
    · exact failsWith_scanNumber false h
    · split
      · exact .ok _
      · exact h.failsWith _

/-- **The scanner stops at a boundary of the text.** -/
theorem failsWith_scanFrom (h : RestAt cs i rest) : FailsWith (FaultIn cs) (scanFrom i rest) := by
  fun_induction scanFrom i rest with
  | case1 i => exact .ok _
  | case2 i c rest hgap ih => exact ih (utf8Size_of_isGap hgap ▸ h.skip_cons)
  | case3 i c rest hgap ih =>
    refine (failsWith_scanToken h).bind fun t ht => ?_
    exact (ih t (h.token ht).1).bind fun _ _ => .ok _

end Scanner

/-! ## The parsers -/

variable {α β : Type} {P : Nat → Prop}

/-- The computation is refused as malformed only at positions with a property, and the tokens that
it leaves begin at such positions. -/
inductive Placed (P : Nat → Prop) : Except Fault (α × List Token) → Prop
  | ok {a : α} {rest : List Token} (h : ∀ t ∈ rest, P t.start) : Placed P (.ok (a, rest))
  | malformed {position : Nat} (h : P position) (reason : Reason) :
      Placed P (.error (.malformed position reason))
  | other {fault : Fault} (h : NotMalformed fault) : Placed P (.error fault)

namespace Placed

/-- What goes on with the tokens left is refused at such positions too. -/
theorem bind {x : Except Fault (α × List Token)}
    {f : α × List Token → Except Fault (β × List Token)} (hx : Placed P x)
    (hf : ∀ a rest, x = .ok (a, rest) → (∀ t ∈ rest, P t.start) → Placed P (f (a, rest))) :
    Placed P (x >>= f) := by
  cases hx with
  | ok h => exact hf _ _ rfl h
  | malformed h reason => exact .malformed h reason
  | other h => exact .other h

/-- Going one level deeper refuses nothing as malformed. -/
theorem enter {b : Bounds} {depth : Nat} {f : Nat → Except Fault (α × List Token)}
    (hf : ∀ deeper, Placed P (f deeper)) : Placed P (b.enter depth >>= f) := by
  unfold Bounds.enter
  split
  · exact .other nofun
  · exact hf _

theorem position {x : Except Fault (α × List Token)} (hx : Placed P x) {position : Nat}
    {reason : Reason} (h : x = .error (.malformed position reason)) : P position := by
  cases hx with
  | ok _ => cases h
  | malformed hp _ =>
    cases h
    exact hp
  | other hne => exact absurd (Except.error.inj h) (hne position reason)

end Placed

section Parsers

variable {b : Bounds}

theorem position_of_tokens (hstop : P b.stop) {tokens : List Token}
    (htokens : ∀ t ∈ tokens, P t.start) : P (b.position tokens) := by
  cases tokens with
  | nil => exact hstop
  | cons t rest => exact htokens t List.mem_cons_self

theorem placed_argumentsFrom (hstop : P b.stop) (tokens : List Token)
    (htokens : ∀ t ∈ tokens, P t.start) : Placed P (plain (argumentsFrom b tokens)) := by
  match tokens with
  | [] => exact .malformed hstop _
  | t :: more =>
    rw [List.forall_mem_cons] at htokens
    rw [plain_argumentsFrom_cons]
    split
    · exact .malformed htokens.1 _
    · next rest _ =>
      rw [List.forall_mem_cons] at htokens
      exact (placed_argumentsFrom hstop rest htokens.2.2).bind fun _ _ _ h => .ok h
    · rw [List.forall_mem_cons] at htokens
      exact .ok htokens.2.2
    · exact .malformed (position_of_tokens hstop htokens.2) _
  termination_by tokens.length

theorem placed_arguments (hstop : P b.stop) (tokens : List Token)
    (htokens : ∀ t ∈ tokens, P t.start) : Placed P (plain (arguments b tokens)) := by
  unfold arguments
  split
  · exact .ok (List.forall_mem_cons.1 htokens).2
  · exact placed_argumentsFrom hstop _ htokens

theorem placed_comparison (hstop : P b.stop) (name : String) (tokens : List Token)
    (htokens : ∀ t ∈ tokens, P t.start) : Placed P (plain (comparison b name tokens)) := by
  unfold comparison
  split
  · split
    · exact .other nofun
    · rw [List.forall_mem_cons] at htokens
      split
      · exact .malformed hstop _
      · rw [List.forall_mem_cons] at htokens
        split
        · exact .malformed htokens.2.1 _
        · exact .ok htokens.2.2
  · exact .malformed (position_of_tokens hstop htokens) _

theorem placed_closeGroup (hstop : P b.stop) (f : Filter) (tokens : List Token)
    (htokens : ∀ t ∈ tokens, P t.start) : Placed P (closeGroup b (f, tokens)) := by
  unfold closeGroup
  split
  · next he =>
    obtain ⟨rfl, rfl⟩ := Prod.mk.inj he
    exact .ok (List.forall_mem_cons.1 htokens).2
  · next he =>
    obtain ⟨rfl, rfl⟩ := Prod.mk.inj he
    exact .malformed (position_of_tokens hstop htokens) _

mutual

theorem placed_disjunction (hstop : P b.stop) (depth : Nat) (tokens : List Token)
    (htokens : ∀ t ∈ tokens, P t.start) : Placed P (plain (disjunction b depth tokens)) := by
  rw [plain_disjunction]
  apply (placed_conjunction hstop depth tokens htokens).bind
  intro first rest hfirst hrest
  have hlt : rest.length < tokens.length := of_plain_eq_ok hfirst
  exact placed_disjuncts hstop depth first rest hrest
  termination_by (tokens.length, 3)

theorem placed_disjuncts (hstop : P b.stop) (depth : Nat) (sofar : Filter) (tokens : List Token)
    (htokens : ∀ t ∈ tokens, P t.start) : Placed P (plain (disjuncts b depth sofar tokens)) := by
  match tokens with
  | [] =>
    rw [plain_disjuncts_nil]
    exact .ok htokens
  | t :: more =>
    rw [plain_disjuncts_cons]
    split
    · apply (placed_conjunction hstop depth more (List.forall_mem_cons.1 htokens).2).bind
      intro next rest hnext hrest
      have hlt : rest.length < more.length := of_plain_eq_ok hnext
      exact placed_disjuncts hstop depth _ rest hrest
    · exact .ok htokens
  termination_by (tokens.length, 0)

theorem placed_conjunction (hstop : P b.stop) (depth : Nat) (tokens : List Token)
    (htokens : ∀ t ∈ tokens, P t.start) : Placed P (plain (conjunction b depth tokens)) := by
  rw [plain_conjunction]
  apply (placed_operand hstop depth tokens htokens).bind
  intro first rest hfirst hrest
  have hlt : rest.length < tokens.length := of_plain_eq_ok hfirst
  exact placed_conjuncts hstop depth first rest hrest
  termination_by (tokens.length, 2)

theorem placed_conjuncts (hstop : P b.stop) (depth : Nat) (sofar : Filter) (tokens : List Token)
    (htokens : ∀ t ∈ tokens, P t.start) : Placed P (plain (conjuncts b depth sofar tokens)) := by
  match tokens with
  | [] =>
    rw [plain_conjuncts_nil]
    exact .ok htokens
  | t :: more =>
    rw [plain_conjuncts_cons]
    split
    · apply (placed_operand hstop depth more (List.forall_mem_cons.1 htokens).2).bind
      intro next rest hnext hrest
      have hlt : rest.length < more.length := of_plain_eq_ok hnext
      exact placed_conjuncts hstop depth _ rest hrest
    · exact .ok htokens
  termination_by (tokens.length, 0)

theorem placed_operand (hstop : P b.stop) (depth : Nat) (tokens : List Token)
    (htokens : ∀ t ∈ tokens, P t.start) : Placed P (plain (operand b depth tokens)) := by
  rw [plain_operand]
  split
  · next hnegation =>
    match tokens with
    | [] => cases hnegation
    | t :: more =>
      apply Placed.enter
      intro deeper
      apply (placed_operand hstop deeper more (List.forall_mem_cons.1 htokens).2).bind
      exact fun _ _ _ h => .ok h
  · exact placed_primary hstop depth tokens htokens
  termination_by (tokens.length, 1)

theorem placed_primary (hstop : P b.stop) (depth : Nat) (tokens : List Token)
    (htokens : ∀ t ∈ tokens, P t.start) : Placed P (plain (primary b depth tokens)) := by
  match tokens with
  | [] =>
    rw [plain_primary_nil]
    exact .malformed hstop _
  | ⟨.openParen, i, j⟩ :: more =>
    rw [plain_primary_group]
    apply Placed.enter
    intro deeper
    apply (placed_disjunction hstop deeper more (List.forall_mem_cons.1 htokens).2).bind
    exact fun f rest _ h => placed_closeGroup hstop f rest h
  | ⟨.word name, i, j⟩ :: more =>
    rw [List.forall_mem_cons] at htokens
    by_cases hopen : ∃ k l left, more = ⟨.openParen, k, l⟩ :: left
    · obtain ⟨k, l, left, rfl⟩ := hopen
      rw [plain_primary_call]
      apply (placed_arguments hstop left (List.forall_mem_cons.1 htokens.2).2).bind
      exact fun _ _ _ h => .ok h
    · rw [plain_primary_comparison _ _ i j name fun k l left he => hopen ⟨k, l, left, he⟩]
      exact placed_comparison hstop name more htokens.2
  | ⟨.text s, i, j⟩ :: more | ⟨.int s, i, j⟩ :: more | ⟨.decimal s, i, j⟩ :: more
  | ⟨.closeParen, i, j⟩ :: more | ⟨.comma, i, j⟩ :: more =>
    rw [plain_primary_of_ne _ _ more (by simp) (by simp)]
    exact .malformed (htokens _ List.mem_cons_self) _
  termination_by (tokens.length, 0)

end

/-- **The parser stops where a token begins or at the end.** -/
theorem position_of_parseTokens (hstop : P b.stop) {tokens : List Token}
    (htokens : ∀ t ∈ tokens, P t.start) {position : Nat} {reason : Reason}
    (h : parseTokens b tokens = .error (.malformed position reason)) : P position := by
  rw [parseTokens_eq] at h
  have hplaced := placed_disjunction hstop 0 tokens htokens
  cases hp : plain (disjunction b 0 tokens) with
  | error fault =>
    rw [hp] at h hplaced
    exact hplaced.position (congrArg Except.error (Except.error.inj h))
  | ok p =>
    obtain ⟨f, rest⟩ := p
    rw [hp] at h hplaced
    cases hplaced with
    | ok hrest =>
      match rest with
      | [] => cases h
      | t :: more =>
        cases h
        exact hrest t List.mem_cons_self

end Parsers

/-! ## Checks -/

theorem failsWith_checkColumn (r : Resource) (column : String) :
    FailsWith NotMalformed (checkColumn r column) := by
  unfold checkColumn
  split
  · exact .ok ()
  · exact .error nofun

/-- A filter that was parsed is not refused as malformed. -/
theorem failsWith_check (r : Resource) (f : Filter) : FailsWith NotMalformed (check r f) := by
  induction f with
  | compare column op l =>
    rw [check]
    unfold checkCompare
    refine (failsWith_checkColumn r column).bind fun _ _ => ?_
    split
    · exact .ok _
    · exact .ok _
    · exact .error nofun
    · exact .ok _
  | call function args =>
    rw [check, checkCall]
    split
    · exact .error nofun
    · split
      · exact (failsWith_checkColumn r _).bind fun _ _ => .ok _
      · exact .error nofun
  | and left right hleft hright =>
    rw [check]
    exact hleft.bind fun _ _ => hright.bind fun _ _ => .ok _
  | or left right hleft hright =>
    rw [check]
    exact hleft.bind fun _ _ => hright.bind fun _ _ => .ok _
  | not inner hinner =>
    rw [check]
    exact hinner.bind fun _ _ => .ok _

/-! ## Filter texts -/

/-- A token that is scanned begins at a boundary. -/
theorem Tiles.isBoundary {cs : List Char} {tokens : List Token} (h : Tiles 0 cs tokens) :
    ∀ t ∈ tokens, IsBoundary cs t.start := by
  intro t ht
  obtain ⟨before, span, after, rfl, -, hstart, -⟩ := h.spans t ht
  exact ⟨span ++ after, before, rfl, by rw [hstart, Nat.zero_add]⟩

/-- A filter that is refused as malformed is so at a boundary of its text. -/
theorem isBoundary_of_compile {source text : String} {r : Resource} {limits : Limits}
    {position : Nat} {reason : Reason}
    (h : compile source r limits = .error (.malformedFilter text position reason)) :
    IsBoundary source.toList position := by
  unfold compile at h
  rcases bind_eq_error.1 h with hlength | ⟨-, -, h⟩
  · unfold checkLength at hlength
    simp only at hlength
    split at hlength <;> cases hlength
  obtain ⟨fault, hfault, hrejection⟩ := mapError_eq_error.1 h
  obtain rfl : fault = .malformed position reason := by
    cases fault <;> cases hrejection
    rfl
  rcases bind_eq_error.1 hfault with hparse | ⟨f, -, hcheck⟩
  · rcases bind_eq_error.1 hparse with hscan | ⟨tokens, hscan, hparse⟩
    · obtain ⟨position', reason', he, hboundary⟩ := failsWith_scanFrom (.start _) _ hscan
      cases he
      exact hboundary
    · have htiles := (scanFrom_eq_ok_iff.1 hscan).tiles
      exact position_of_parseTokens (IsBoundary.end _) htiles.isBoundary hparse
  · exact absurd rfl (failsWith_check r f _ hcheck position reason)

/-- **The tokens of a filter tile its text, and its faults have a place in it.** The tokens stand
one after the other on whole characters, with nothing but blanks around them; each by itself is
scanned into that token, and other blanks in place of some leave their kinds alone. A text that is
refused as malformed, by the scanner or the parser, is so at one of its octets or at its end, and
not inside a character. The scanner of octets has a result, so no cut falls inside a character, and
it is the same one. -/
theorem tokens_tile (source : String) :
    (∀ tokens, Token.scan source = .ok tokens → Tiles 0 source.toList tokens ∧
      ∀ before gap gap' after, source.toList = before ++ (gap ++ after) → Blanks gap → Blanks gap' →
        (∀ t ∈ tokens, t.stop ≤ widthOf before ∨ widthOf (before ++ gap) ≤ t.start) →
        ∃ tokens', Token.scan (String.ofList (before ++ (gap' ++ after))) = .ok tokens' ∧
          tokens'.map (·.kind) = tokens.map (·.kind)) ∧
    (∀ fault, Token.scan source = .error fault → ∃ position reason,
      fault = .malformed position reason ∧ position ≤ width source ∧
        IsBoundary source.toList position) ∧
    (∀ r limits text position reason,
      compile source r limits = .error (.malformedFilter text position reason) →
        position ≤ width source ∧ IsBoundary source.toList position) ∧
    octetScan source = some (Token.scan source) := by
  refine ⟨fun tokens hscan => ?_, fun fault hscan => ?_, ?_, octetScan_eq source⟩
  · have htiling := scanFrom_eq_ok_iff.1 hscan
    refine ⟨htiling.tiles, fun before gap gap' after hsource hgap hgap' houtside => ?_⟩
    rw [hsource] at htiling
    obtain ⟨tokens', hmore, hkinds⟩ := htiling.replace_gap hgap hgap'
      (fun t ht => by simpa only [Nat.zero_add] using houtside t ht) 0
    refine ⟨tokens', ?_, hkinds⟩
    rw [Token.scan, String.toList_ofList]
    exact scanFrom_eq_ok_iff.2 hmore
  · obtain ⟨position, reason, hfault, hboundary⟩ := failsWith_scanFrom (.start _) _ hscan
    exact ⟨position, reason, hfault, hboundary.le, hboundary⟩
  · intro r limits text position reason h
    have hboundary := isBoundary_of_compile h
    exact ⟨hboundary.le, hboundary⟩

/-- Two blanks before an operator, and a quoted text with a character of two octets. -/
theorem tokens_tile_accented :
    Token.scan "name  eq 'é'" = .ok [⟨.word "name", 0, 4⟩, ⟨.word "eq", 6, 8⟩, ⟨.text "é", 9, 13⟩] ∧
    (∃ tokens', Token.scan "name\teq 'é'" = .ok tokens' ∧
      tokens'.map (·.kind) = [.word "name", .word "eq", .text "é"]) ∧
    Token.scan "é eq 1" = .error (.malformed 0 (.unexpectedCharacter 'é')) ∧
    IsBoundary "é eq 1".toList 0 := by
  have hscan : Token.scan "name  eq 'é'" =
      .ok [⟨.word "name", 0, 4⟩, ⟨.word "eq", 6, 8⟩, ⟨.text "é", 9, 13⟩] := by
    decide +kernel
  have hfault : Token.scan "é eq 1" = .error (.malformed 0 (.unexpectedCharacter 'é')) := by
    decide +kernel
  refine ⟨hscan, ?_, hfault, ?_⟩
  · exact ((tokens_tile _).1 _ hscan).2 "name".toList "  ".toList "\t".toList "eq 'é'".toList
      (by decide) ⟨by decide, by simp [isGap]⟩ ⟨by decide, by simp [isGap]⟩ (by decide)
  · obtain ⟨position, reason, he, -, hboundary⟩ := (tokens_tile _).2.1 _ hfault
    cases he
    exact hboundary

end RequestQuery.Filter
