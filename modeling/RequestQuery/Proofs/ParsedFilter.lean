import RequestQuery.Proofs.Fallible
import RequestQuery.Proofs.ParserSteps

/-!
# Parsed filters

The parser of filters accepts exactly the grammar. What it gives is derived from the tokens that it
takes (`derived_disjunction` and its neighbours, one for each parser, by induction on the number of
tokens), and the parser of a symbol gives every filter that the symbol derives (`reads_of_derives`,
by induction on the derivation). The depth that a parser has left bounds the nesting of what it
parses, so the limit on nesting only decides how much of the grammar is accepted. As a parser is a
function, it follows that the grammar is not ambiguous.
-/

namespace RequestQuery.Filter

open Fallible

/-! ## What is parsed is derived -/

variable {b : Bounds} {depth : Nat} {f : Filter} {tokens rest : List Token}

theorem writesSomeArguments_of_plain {tokens rest : List Token} {args : List Argument}
    (h : plain (argumentsFrom b tokens) = .ok (args, rest)) : ∃ ks,
      tokens.map (·.kind) = ks ++ .closeParen :: rest.map (·.kind) ∧
        WritesSomeArguments ks args := by
  match tokens with
  | [] => cases h
  | t :: more =>
    rw [plain_argumentsFrom_cons] at h
    split at h
    · cases h
    · next a k l left ha =>
      obtain ⟨⟨args', rest'⟩, hargs, h⟩ := bind_eq_ok.1 h
      cases h
      obtain ⟨ks, hks, hder⟩ := writesSomeArguments_of_plain hargs
      refine ⟨t.kind :: .comma :: ks, ?_, .cons (Token.argument?_eq_some_iff.1 ha) hder⟩
      rw [List.map_cons, List.map_cons, hks]
      rfl
    · next a k l left ha =>
      cases h
      exact ⟨[t.kind], rfl, .one (Token.argument?_eq_some_iff.1 ha)⟩
    · cases h
  termination_by tokens.length

theorem writesArguments_of_plain {args : List Argument}
    (h : plain (arguments b tokens) = .ok (args, rest)) : ∃ ks,
      tokens.map (·.kind) = ks ++ .closeParen :: rest.map (·.kind) ∧ WritesArguments ks args := by
  unfold arguments at h
  split at h
  · cases h
    exact ⟨[], rfl, .inl ⟨rfl, rfl⟩⟩
  · obtain ⟨ks, hks, hder⟩ := writesSomeArguments_of_plain h
    exact ⟨ks, hks, .inr hder⟩

/-- The tokens of a parser are those that it derives its result from, and those that it leaves. -/
def Derived (b : Bounds) (depth : Nat) (s : Symbol) (tokens : List Token) (f : Filter)
    (rest : List Token) : Prop :=
  ∃ n ks, tokens.map (·.kind) = ks ++ rest.map (·.kind) ∧ Derives s n ks f ∧ depth + n ≤ b.maxDepth

theorem derived_comparison {name : String} (hd : depth ≤ b.maxDepth) {i j : Nat}
    (h : plain (comparison b name tokens) = .ok (f, rest)) :
    Derived b depth .primary (⟨.word name, i, j⟩ :: tokens) f rest := by
  unfold comparison at h
  split at h
  · next word k l more =>
    split at h
    · cases h
    · next op hop =>
      split at h
      · cases h
      · next t left =>
        split at h
        · cases h
        · next literal hliteral =>
          cases h
          refine ⟨0, [.word name, .word word, t.kind], rfl, .compare name ?_ ?_, hd⟩
          · exact Kind.isWord_word.2 (Comparison.ofWord?_eq_some_iff.1 hop)
          · exact Token.literal?_eq_some_iff.1 hliteral
  · cases h

mutual

theorem derived_disjunction {depth : Nat} {tokens rest : List Token} {f : Filter}
    (hd : depth ≤ b.maxDepth) (h : plain (disjunction b depth tokens) = .ok (f, rest)) :
    Derived b depth .disjunction tokens f rest := by
  rw [plain_disjunction] at h
  obtain ⟨⟨g, mid⟩, hg, h⟩ := bind_eq_ok.1 h
  obtain ⟨n, ks, hks, hder, hn⟩ := derived_conjunction hd hg
  have hlt : mid.length < tokens.length := of_plain_eq_ok hg
  obtain ⟨m, ls, hls, hder', hm⟩ := derived_disjuncts hd (.conjunction hder) hn h
  exact ⟨m, ks ++ ls, by rw [hks, hls, List.append_assoc], hder', hm⟩
  termination_by (tokens.length, 3)

theorem derived_disjuncts {depth n : Nat} {tokens rest : List Token} {f g : Filter}
    {ks : List Kind} (hd : depth ≤ b.maxDepth) (hg : Derives .disjunction n ks g)
    (hn : depth + n ≤ b.maxDepth) (h : plain (disjuncts b depth g tokens) = .ok (f, rest)) :
    ∃ m ls, tokens.map (·.kind) = ls ++ rest.map (·.kind) ∧
      Derives .disjunction m (ks ++ ls) f ∧ depth + m ≤ b.maxDepth := by
  match tokens with
  | [] =>
    rw [plain_disjuncts_nil] at h
    cases h
    exact ⟨n, [], rfl, by rwa [List.append_nil], hn⟩
  | t :: more =>
    rw [plain_disjuncts_cons] at h
    split at h
    · next ht =>
      obtain ⟨⟨g', mid⟩, hg', h⟩ := bind_eq_ok.1 h
      obtain ⟨n', ks', hks', hder, hn'⟩ := derived_conjunction hd hg'
      have hlt : mid.length < more.length := of_plain_eq_ok hg'
      obtain ⟨m, ls, hls, hder', hm⟩ := derived_disjuncts hd
        (hg.or (Token.isWord_iff.1 ht) hder) (by omega) h
      rw [List.append_assoc, List.cons_append] at hder'
      refine ⟨m, t.kind :: (ks' ++ ls), ?_, hder', hm⟩
      rw [List.map_cons, hks', hls, List.cons_append, List.append_assoc]
    · cases h
      exact ⟨n, [], rfl, by rwa [List.append_nil], hn⟩
  termination_by (tokens.length, 0)

theorem derived_conjunction {depth : Nat} {tokens rest : List Token} {f : Filter}
    (hd : depth ≤ b.maxDepth) (h : plain (conjunction b depth tokens) = .ok (f, rest)) :
    Derived b depth .conjunction tokens f rest := by
  rw [plain_conjunction] at h
  obtain ⟨⟨g, mid⟩, hg, h⟩ := bind_eq_ok.1 h
  obtain ⟨n, ks, hks, hder, hn⟩ := derived_operand hd hg
  have hlt : mid.length < tokens.length := of_plain_eq_ok hg
  obtain ⟨m, ls, hls, hder', hm⟩ := derived_conjuncts hd (.operand hder) hn h
  exact ⟨m, ks ++ ls, by rw [hks, hls, List.append_assoc], hder', hm⟩
  termination_by (tokens.length, 2)

theorem derived_conjuncts {depth n : Nat} {tokens rest : List Token} {f g : Filter}
    {ks : List Kind} (hd : depth ≤ b.maxDepth) (hg : Derives .conjunction n ks g)
    (hn : depth + n ≤ b.maxDepth) (h : plain (conjuncts b depth g tokens) = .ok (f, rest)) :
    ∃ m ls, tokens.map (·.kind) = ls ++ rest.map (·.kind) ∧
      Derives .conjunction m (ks ++ ls) f ∧ depth + m ≤ b.maxDepth := by
  match tokens with
  | [] =>
    rw [plain_conjuncts_nil] at h
    cases h
    exact ⟨n, [], rfl, by rwa [List.append_nil], hn⟩
  | t :: more =>
    rw [plain_conjuncts_cons] at h
    split at h
    · next ht =>
      obtain ⟨⟨g', mid⟩, hg', h⟩ := bind_eq_ok.1 h
      obtain ⟨n', ks', hks', hder, hn'⟩ := derived_operand hd hg'
      have hlt : mid.length < more.length := of_plain_eq_ok hg'
      obtain ⟨m, ls, hls, hder', hm⟩ := derived_conjuncts hd
        (hg.and (Token.isWord_iff.1 ht) hder) (by omega) h
      rw [List.append_assoc, List.cons_append] at hder'
      refine ⟨m, t.kind :: (ks' ++ ls), ?_, hder', hm⟩
      rw [List.map_cons, hks', hls, List.cons_append, List.append_assoc]
    · cases h
      exact ⟨n, [], rfl, by rwa [List.append_nil], hn⟩
  termination_by (tokens.length, 0)

theorem derived_operand {depth : Nat} {tokens rest : List Token} {f : Filter}
    (hd : depth ≤ b.maxDepth) (h : plain (operand b depth tokens) = .ok (f, rest)) :
    Derived b depth .operand tokens f rest := by
  match tokens with
  | [] =>
    rw [plain_operand, startsNegation, if_neg Bool.false_ne_true, plain_primary_nil] at h
    cases h
  | t :: more =>
    rw [plain_operand] at h
    split at h
    · next hneg =>
      obtain ⟨deeper, hdeeper, h⟩ := bind_eq_ok.1 h
      obtain ⟨hle, rfl⟩ := enter_eq_ok.1 hdeeper
      obtain ⟨⟨inner, left⟩, hinner, h⟩ := bind_eq_ok.1 h
      rw [List.tail_cons] at hinner
      cases h
      obtain ⟨n, ks, hks, hder, hn⟩ := derived_operand hle hinner
      have hlen := hder.two_le_length
      rw [startsNegation_iff, List.map_cons, hks, ← List.cons_append,
        beginsWithNegation_append (by rw [List.length_cons]; omega)] at hneg
      exact ⟨n + 1, t.kind :: ks, by rw [List.map_cons, hks, List.cons_append], .not hneg hder,
        by omega⟩
    · next hplain =>
      obtain ⟨n, ks, hks, hder, hn⟩ := derived_primary hd h
      rw [startsNegation_iff, hks, beginsWithNegation_append hder.two_le_length] at hplain
      exact ⟨n, ks, hks, .primary hplain hder, hn⟩
  termination_by (tokens.length, 1)

theorem derived_primary {depth : Nat} {tokens rest : List Token} {f : Filter}
    (hd : depth ≤ b.maxDepth) (h : plain (primary b depth tokens) = .ok (f, rest)) :
    Derived b depth .primary tokens f rest := by
  match tokens with
  | [] =>
    rw [plain_primary_nil] at h
    cases h
  | ⟨.openParen, i, j⟩ :: more =>
    rw [plain_primary_group] at h
    obtain ⟨deeper, hdeeper, h⟩ := bind_eq_ok.1 h
    obtain ⟨hle, rfl⟩ := enter_eq_ok.1 hdeeper
    obtain ⟨⟨inner, mid⟩, hinner, h⟩ := bind_eq_ok.1 h
    obtain ⟨n, ks, hks, hder, hn⟩ := derived_disjunction hle hinner
    unfold closeGroup at h
    split at h
    · next g k l left he =>
      cases he
      cases h
      refine ⟨n + 1, .openParen :: (ks ++ [.closeParen]), ?_, .group hder, by omega⟩
      rw [List.map_cons, hks, List.map_cons]
      simp only [List.cons_append, List.append_assoc, List.nil_append]
    · cases h
  | ⟨.word name, i, j⟩ :: more =>
    by_cases hopen : ∃ k l left, more = ⟨.openParen, k, l⟩ :: left
    · obtain ⟨k, l, left, rfl⟩ := hopen
      rw [plain_primary_call] at h
      obtain ⟨⟨args, left'⟩, hargs, h⟩ := bind_eq_ok.1 h
      cases h
      obtain ⟨ks, hks, hder⟩ := writesArguments_of_plain hargs
      refine ⟨0, .word name :: .openParen :: (ks ++ [.closeParen]), ?_, .call name hder, hd⟩
      rw [List.map_cons, List.map_cons, hks]
      simp only [List.cons_append, List.append_assoc, List.nil_append]
    · rw [plain_primary_comparison b depth i j name
        fun k l left he => hopen ⟨k, l, left, he⟩] at h
      exact derived_comparison hd h
  | ⟨.text s, i, j⟩ :: more | ⟨.int s, i, j⟩ :: more | ⟨.decimal s, i, j⟩ :: more
  | ⟨.closeParen, i, j⟩ :: more | ⟨.comma, i, j⟩ :: more =>
    rw [plain_primary_of_ne b depth more (by simp) (by simp)] at h
    cases h
  termination_by (tokens.length, 0)

end

/-! ## What is derived is parsed -/

theorem plain_argumentsFrom_of_writes {ks : List Kind} {args : List Argument}
    (h : WritesSomeArguments ks args) {tokens : List Token} {close : Token} (tail : List Token)
    (htokens : tokens.map (·.kind) = ks) (hclose : close.kind = .closeParen) :
    plain (argumentsFrom b (tokens ++ close :: tail)) = .ok (args, tail) := by
  induction h generalizing tokens with
  | @one k a ha =>
    obtain ⟨t, rfl, rfl⟩ := List.map_eq_singleton_iff.1 htokens
    obtain ⟨kind, i, j⟩ := close
    obtain rfl := hclose
    rw [List.singleton_append, plain_argumentsFrom_cons, Token.argument?_eq_some_iff.2 ha]
  | @cons k a ks as ha more ih =>
    obtain ⟨t, left, rfl, rfl, hleft⟩ := List.map_eq_cons_iff.1 htokens
    obtain ⟨⟨kind, i, j⟩, rest, rfl, hcomma, hrest⟩ := List.map_eq_cons_iff.1 hleft
    obtain rfl := hcomma
    rw [List.cons_append, List.cons_append, plain_argumentsFrom_cons,
      Token.argument?_eq_some_iff.2 ha]
    simp only [ih hrest]
    rfl

theorem plain_arguments_of_writes {ks : List Kind} {args : List Argument}
    (h : WritesArguments ks args) {tokens : List Token} {close : Token} (tail : List Token)
    (htokens : tokens.map (·.kind) = ks) (hclose : close.kind = .closeParen) :
    plain (arguments b (tokens ++ close :: tail)) = .ok (args, tail) := by
  obtain ⟨rfl, rfl⟩ | h := h
  · obtain rfl := List.map_eq_nil_iff.1 htokens
    obtain ⟨kind, i, j⟩ := close
    obtain rfl := hclose
    rfl
  · -- No argument is a closing parenthesis, so the arguments are not taken for none.
    obtain ⟨k, rest, a, hks, ha⟩ := h.head
    obtain ⟨⟨kind, i, j⟩, more, rfl, hkind, -⟩ := List.map_eq_cons_iff.1 (htokens.trans hks)
    have hfrom : arguments b (⟨kind, i, j⟩ :: more ++ close :: tail) =
        argumentsFrom b (⟨kind, i, j⟩ :: more ++ close :: tail) := by
      cases kind with
      | closeParen =>
        obtain rfl := hkind
        exact absurd ha (Kind.not_writesArgument_closeParen a)
      | _ => rfl
    rw [hfrom]
    exact plain_argumentsFrom_of_writes h tail htokens hclose

/-- What the parser of a symbol does with tokens that write a filter. The parsers of disjunctions
and conjunctions go on with the tail, unless the weaker connective would be cut off. -/
def Reads (b : Bounds) (depth : Nat) (tokens tail : List Token) (f : Filter) : Symbol → Prop
  | .disjunction => (∀ t ∈ tail.head?, t.isWord "and" = false) →
    plain (disjunction b depth (tokens ++ tail)) = plain (disjuncts b depth f tail)
  | .conjunction =>
    plain (conjunction b depth (tokens ++ tail)) = plain (conjuncts b depth f tail)
  | .operand => plain (operand b depth (tokens ++ tail)) = .ok (f, tail)
  | .primary => plain (primary b depth (tokens ++ tail)) = .ok (f, tail)

theorem reads_of_derives {s : Symbol} {n : Nat} {ks : List Kind} (h : Derives s n ks f) :
    ∀ {depth : Nat} {tokens : List Token} (tail : List Token), tokens.map (·.kind) = ks →
      depth + n ≤ b.maxDepth → Reads b depth tokens tail f s := by
  induction h with
  | conjunction h ih =>
    intro depth tokens tail htokens hd hand
    rw [plain_disjunction, ih tail htokens hd, plain_conjuncts_of_head hand]
    rfl
  | or left word right ihl ihr =>
    intro depth tokens tail htokens hd hand
    obtain ⟨tl, tr, rfl, htl, htr⟩ := List.map_eq_append_iff.1 htokens
    obtain ⟨t, tr, rfl, rfl, hright⟩ := List.map_eq_cons_iff.1 htr
    have hor := Token.isWord_iff.2 word
    rw [List.append_assoc, ihl (t :: tr ++ tail) htl (by omega) ?_, List.cons_append,
      plain_disjuncts_cons, if_pos hor, ihr tail hright (by omega), plain_conjuncts_of_head hand]
    · rfl
    · intro t' ht'
      obtain rfl : t = t' := by simpa using ht'
      exact Token.isWord_eq_false word (by decide)
  | operand h ih =>
    intro depth tokens tail htokens hd
    rw [Reads, plain_conjunction, ih tail htokens hd]
    rfl
  | and left word right ihl ihr =>
    intro depth tokens tail htokens hd
    obtain ⟨tl, tr, rfl, htl, htr⟩ := List.map_eq_append_iff.1 htokens
    obtain ⟨t, tr, rfl, rfl, hright⟩ := List.map_eq_cons_iff.1 htr
    have hand := Token.isWord_iff.2 word
    rw [Reads, List.append_assoc, ihl (t :: tr ++ tail) htl (by omega), List.cons_append,
      plain_conjuncts_cons, if_pos hand, ihr tail hright (by omega)]
    rfl
  | not negation inner ih =>
    intro depth tokens tail htokens hd
    obtain ⟨t, more, rfl, rfl, hmore⟩ := List.map_eq_cons_iff.1 htokens
    have hlen := inner.two_le_length
    have hneg : startsNegation (t :: more ++ tail) = true := by
      rw [startsNegation_iff, List.map_append, htokens,
        beginsWithNegation_append (by rw [List.length_cons]; omega)]
      exact negation
    rw [Reads, plain_operand, if_pos hneg, enter_eq_ok.2 ⟨by omega, rfl⟩]
    change plain (operand b (depth + 1) (more ++ tail)) >>= _ = _
    rw [ih tail hmore (by omega)]
    rfl
  | primary hplain h ih =>
    intro depth tokens tail htokens hd
    have hpos : ¬ startsNegation (tokens ++ tail) = true := by
      rw [startsNegation_iff, List.map_append, htokens, beginsWithNegation_append h.two_le_length]
      exact hplain
    rw [Reads, plain_operand, if_neg hpos]
    exact ih tail htokens hd
  | group inner ih =>
    intro depth tokens tail htokens hd
    obtain ⟨⟨kind, i, j⟩, more, rfl, hopen, hmore⟩ := List.map_eq_cons_iff.1 htokens
    obtain ⟨filter, close, rfl, hfilter, hclose⟩ := List.map_eq_append_iff.1 hmore
    obtain ⟨⟨kind', k, l⟩, rfl, hkind⟩ := List.map_eq_singleton_iff.1 hclose
    obtain rfl := hopen
    obtain rfl := hkind
    have hinner := @ih (depth + 1) filter (⟨.closeParen, k, l⟩ :: tail) hfilter (by omega)
    rw [Reads, List.cons_append, List.append_assoc, List.singleton_append, plain_primary_group,
      enter_eq_ok.2 ⟨by omega, rfl⟩]
    change plain (disjunction b (depth + 1) _) >>= closeGroup b = _
    rw [hinner (by simp [Token.isWord]), plain_disjuncts_of_head (by simp [Token.isWord])]
    rfl
  | call function h =>
    intro depth tokens tail htokens hd
    obtain ⟨⟨kind, i, j⟩, more, rfl, hkind, hmore⟩ := List.map_eq_cons_iff.1 htokens
    obtain ⟨⟨kind', k, l⟩, more, rfl, hkind', hmore⟩ := List.map_eq_cons_iff.1 hmore
    obtain ⟨args, close, rfl, hargs, hclose⟩ := List.map_eq_append_iff.1 hmore
    obtain ⟨close, rfl, hkind''⟩ := List.map_eq_singleton_iff.1 hclose
    obtain rfl := hkind
    obtain rfl := hkind'
    rw [Reads, List.cons_append, List.cons_append, List.append_assoc, List.singleton_append,
      plain_primary_call, plain_arguments_of_writes h tail hargs hkind'']
    rfl
  | @compare column o k op l operator literal =>
    intro depth tokens tail htokens hd
    obtain ⟨⟨kind, i, j⟩, more, rfl, hkind, hmore⟩ := List.map_eq_cons_iff.1 htokens
    obtain ⟨⟨kind', k, l⟩, more, rfl, hkind', hmore⟩ := List.map_eq_cons_iff.1 hmore
    obtain ⟨t, rfl, rfl⟩ := List.map_eq_singleton_iff.1 hmore
    obtain rfl := hkind
    obtain rfl := hkind'
    obtain ⟨word, rfl, hword⟩ := operator
    rw [Reads, List.cons_append, plain_primary_comparison _ _ _ _ _ (by simp), List.cons_append,
      List.singleton_append, comparison]
    simp only [Comparison.ofWord?_eq_some_iff.2 hword, Token.literal?_eq_some_iff.2 literal]
    rfl

/-! ## Whole lists of tokens -/

theorem derives_of_parseTokens (h : parseTokens b tokens = .ok f) :
    ∃ n ≤ b.maxDepth, Derives .disjunction n (tokens.map (·.kind)) f := by
  obtain ⟨n, ks, hks, hder, hn⟩ := derived_disjunction (Nat.zero_le _) (parseTokens_eq_ok.1 h)
  rw [List.map_nil, List.append_nil] at hks
  exact ⟨n, by omega, hks ▸ hder⟩

theorem parseTokens_of_derives {n : Nat} (h : Derives .disjunction n (tokens.map (·.kind)) f)
    (hn : n ≤ b.maxDepth) : parseTokens b tokens = .ok f := by
  have hreads : Reads b 0 tokens [] f .disjunction := reads_of_derives h [] rfl (by omega)
  rw [Reads, List.append_nil] at hreads
  rw [parseTokens_eq_ok, hreads nofun, plain_disjuncts_nil]

/-- **The parser accepts exactly the grammar**, up to the nesting that it is given, and gives the
filter that the tokens write; no tokens write two filters. -/
theorem parseTokens_eq_ok_iff (tokens : List Token) :
    (∀ (b : Bounds) (f : Filter), parseTokens b tokens = .ok f ↔
      ∃ n ≤ b.maxDepth, Derives .disjunction n (tokens.map (·.kind)) f) ∧
      ∀ (n m : Nat) (f g : Filter), Derives .disjunction n (tokens.map (·.kind)) f →
        Derives .disjunction m (tokens.map (·.kind)) g → f = g := by
  refine ⟨fun b f => ⟨derives_of_parseTokens, ?_⟩, ?_⟩
  · rintro ⟨n, hn, h⟩
    exact parseTokens_of_derives h hn
  · intro n m f g hf hg
    have hf' : parseTokens ⟨max n m, 0⟩ tokens = .ok f :=
      parseTokens_of_derives hf (Nat.le_max_left n m)
    have hg' : parseTokens ⟨max n m, 0⟩ tokens = .ok g :=
      parseTokens_of_derives hg (Nat.le_max_right n m)
    exact Except.ok.inj (hf'.symm.trans hg')

/-- The tokens of a negated group that tests a column of the name `not`. -/
def negatedNot : List Token :=
  [⟨.word "NOT", 0, 3⟩, ⟨.openParen, 4, 5⟩, ⟨.word "not", 5, 8⟩, ⟨.word "Eq", 9, 11⟩,
    ⟨.int 1, 12, 13⟩, ⟨.closeParen, 13, 14⟩]

theorem parseTokens_eq_ok_iff_negatedNot :
    (∃ n ≤ 2, Derives .disjunction n (negatedNot.map (·.kind))
      (.not (.compare "not" .eq (.int 1)))) ∧
      ∀ (m : Nat) (g : Filter), Derives .disjunction m (negatedNot.map (·.kind)) g →
        .not (.compare "not" .eq (.int 1)) = g := by
  have hcompare : Derives .operand 0 [.word "not", .word "Eq", .int 1]
      (.compare "not" .eq (.int 1)) :=
    .operand_compare "not" ⟨"Eq", rfl, by decide⟩ (.int 1)
  have hgroup : Derives .operand 1 [.openParen, .word "not", .word "Eq", .int 1, .closeParen]
      (.compare "not" .eq (.int 1)) := by
    refine .primary ?_ (.group (.conjunction (.operand hcompare)))
    rw [beginsWithNegation_cons]
    rintro ⟨⟨s, hs, -⟩, -⟩
    cases hs
  have hnegation : BeginsWithNegation (negatedNot.map (·.kind)) := by
    refine beginsWithNegation_cons.2 ⟨⟨"NOT", rfl, by decide⟩, ?_⟩
    rintro ⟨k, rest, op, he, s, hs, -⟩
    cases he
    cases hs
  have h : Derives .disjunction 2 (negatedNot.map (·.kind)) (.not (.compare "not" .eq (.int 1))) :=
    .conjunction (.operand (.not hnegation hgroup))
  exact ⟨⟨2, Nat.le_refl 2, h⟩, fun m g hg => (parseTokens_eq_ok_iff negatedNot).2 2 m _ g h hg⟩

end RequestQuery.Filter
