import RequestQuery.Proofs.BoundValues
import RequestQuery.Proofs.ClauseReader

/-!
# Rendered clauses

The WHERE clause of a query, read as a database reads it and with the bound values in the place of
its slots, holds on a row exactly when the conditions of the query do. Every fragment is one operand
of a clause, wherever it stands: a test is one, and a group of several parts stands in parentheses,
so no connective outside can take a part of it. A group of one part is that part, and a negation
always stands before parentheses. The parts of a group, and those of the whole clause, are a chain
of operands with one connective between them.

* `Fragment.Says`, `Fragment.ChainSays`: what a fragment says, as an operand and as a chain.
* `Condition.says_fragment`: a condition is rendered as an operand that says what it says.
* `Query.whereText_meaning`: the clause of a query means its conditions, in both dialects.
-/

namespace RequestQuery.Sql

open Clause

/-! ## What fragments say -/

/-- A clause has a meaning when the values of a fragment are bound to the slots from a number on. -/
def Fragment.Means (next : Nat) (f : Fragment) (c : Clause) (meaning : RowReading → Truth) : Prop :=
  ∀ row before after, before.length + 1 = next →
    c.truth? row (before ++ f.params ++ after) = some (meaning row)

/-- A fragment is read as one operand, whatever follows, that has a meaning. -/
structure Fragment.Says (d : Dialect) (next : Nat) (f : Fragment) (meaning : RowReading → Truth) :
    Prop where
  legible : Legible d f.lexemes
  reads : ∃ c, (∀ rest, plain (operand? (tokensOf f.lexemes ++ rest)) = some (c, rest)) ∧
    f.Means next c meaning

/-- Tokens at which a chain ends: no connective is in front. -/
def EndsChain (rest : List Token) : Prop :=
  ∀ t ∈ rest.head?, ∀ k : Connective, t.isWord k.keyword = false

/-- A fragment is read as a chain of a connective, up to the end of a chain, that has a meaning. -/
structure Fragment.ChainSays (d : Dialect) (k : Connective) (next : Nat) (f : Fragment)
    (meaning : RowReading → Truth) : Prop where
  legible : Legible d f.lexemes
  reads : ∃ c, (∀ rest, EndsChain rest →
      plain (chain? k (tokensOf f.lexemes ++ rest)) = some (c, rest)) ∧
    f.Means next c meaning

variable {d : Dialect} {next : Nat}

/-! ## Slots -/

theorem bound?_append (before : List Value) (v : Value) (after : List Value) :
    bound? (before ++ v :: after) (before.length + 1) = some v := by
  simp [bound?]

/-- Slots numbered one after another are bound to the values in their order. -/
theorem mapM_bound?_range' (before values after : List Value) :
    (List.range' (before.length + 1) values.length).mapM (bound? (before ++ values ++ after)) =
      some values := by
  induction values generalizing before with
  | nil => rfl
  | cons v values ih =>
    have hshift := ih (before ++ [v])
    rw [List.length_append, List.length_singleton, List.append_assoc, List.append_assoc,
      List.singleton_append] at hshift
    rw [List.length_cons, List.range'_succ, List.mapM_cons, List.append_assoc, List.cons_append,
      bound?_append, hshift]
    rfl

/-! ## Tests -/

section Tests

variable {column : String} (hcolumn : Ascii.isWord column = true)
include hcolumn

theorem legible_column : Legible d [.column column] := legible_singleton (.column column) hcolumn

theorem says_isNull : Fragment.Says d next ⟨[.column column, .isNull], []⟩
    fun row => .ofBool (row.isNull column) where
  legible := (legible_column hcolumn).append_spaced (legible_singleton .isNull trivial) rfl
  reads := ⟨.isNull column, fun _ => plain_operand?_test rfl rfl, fun _ _ _ _ => rfl⟩

theorem says_isNotNull : Fragment.Says d next ⟨[.column column, .isNotNull], []⟩
    fun row => .ofBool (!row.isNull column) where
  legible := (legible_column hcolumn).append_spaced (legible_singleton .isNotNull trivial) rfl
  reads := ⟨.isNotNull column, fun _ => plain_operand?_test rfl rfl, fun _ _ _ _ => rfl⟩

theorem says_compare (c : Comparison) (v : Value) :
    Fragment.Says d next ⟨[.column column, .comparison c, .slot next], [v]⟩
      fun row => row.compare column c v where
  legible := (legible_column hcolumn).append_spaced
    (.cons_closed (.comparison c) rfl trivial (legible_singleton (.slot next) trivial)) rfl
  reads := by
    refine ⟨.compare column c next, fun _ => plain_operand?_test rfl rfl, ?_⟩
    rintro row before after rfl
    rw [truth?, List.append_assoc, List.singleton_append, bound?_append, Option.map_some]

theorem says_equalsAny (vs : List Value) :
    Fragment.Says d next ⟨[.column column, .equalsAny, .slot next, .closeParen], [.list vs]⟩
      fun row => .any (vs.map (row.compare column .eq)) where
  legible := (legible_column hcolumn).append_spaced
    (.cons_closed .equalsAny rfl trivial ((legible_singleton (.slot next) trivial).append_spaced
      (legible_singleton .closeParen trivial) rfl)) rfl
  reads := by
    refine ⟨.equalsAny column next, fun _ => plain_operand?_test rfl rfl, ?_⟩
    rintro row before after rfl
    rw [truth?, List.append_assoc, List.singleton_append, bound?_append]

end Tests

/-! ## Lists of slots -/

/-- The lexemes of a list of slots, with its end. -/
def slotList (ns : List Nat) : List Lexeme :=
  (ns.map Lexeme.slot).intersperse .comma ++ [.closeParen]

theorem legible_slotList (ns : List Nat) : Legible d (slotList ns) := by
  match ns with
  | [] => exact legible_singleton .closeParen trivial
  | [n] =>
    exact (legible_singleton (.slot n) trivial).append_spaced
      (legible_singleton .closeParen trivial) rfl
  | n :: m :: ns =>
    exact (legible_singleton (.slot n) trivial).append_spaced
      (.cons_closed .comma rfl trivial (legible_slotList (m :: ns))) rfl

/-- A list of slots is read up to its end. -/
theorem plain_slots? {ns : List Nat} (hns : ns ≠ []) (rest : List Token) :
    plain (slots? (tokensOf (slotList ns) ++ rest)) = some (ns, rest) := by
  match ns with
  | [] => exact absurd rfl hns
  | [n] => rfl
  | n :: m :: ns =>
    obtain ⟨fewer, hslots⟩ := exists_of_plain (plain_slots? (List.cons_ne_nil m ns) rest)
    change plain (slots? (.slot n :: .comma :: (tokensOf (slotList (m :: ns)) ++ rest))) = _
    rw [slots?, hslots]
    rfl

theorem says_among {column : String} (hcolumn : Ascii.isWord column = true) {values : List Value}
    (hvalues : values ≠ []) :
    Fragment.Says d next
      ⟨.column column :: .inList :: slotList (List.range' next values.length), values⟩
      fun row => .any (values.map (row.compare column .eq)) where
  legible := (legible_column hcolumn).append_spaced
    (.cons_closed .inList rfl trivial (legible_slotList _)) rfl
  reads := by
    have hne : List.range' next values.length ≠ [] := by
      rw [Ne, List.range'_eq_nil_iff, List.length_eq_zero_iff]
      exact hvalues
    refine ⟨.among column (List.range' next values.length), fun rest => ?_, ?_⟩
    · refine plain_operand?_test rfl ?_
      obtain ⟨fewer, hslots⟩ := exists_of_plain (plain_slots? hne rest)
      change plain ((slots? (tokensOf (slotList _) ++ rest)).map _) = _
      rw [hslots]
      rfl
    · rintro row before after rfl
      rw [truth?, mapM_bound?_range', Option.map_some]

/-! ## Patterns -/

/-- An escaped text matches itself only. -/
theorem literal?_escapeWildcards (cs : List Char) : literal? (escapeWildcards cs) = some cs := by
  induction cs with
  | nil => rfl
  | cons c cs ih =>
    rw [escapeWildcards] at ih ⊢
    rw [List.flatMap_cons]
    split
    · rw [List.cons_append, List.singleton_append, literal?, ih, Option.map_some]
    · next hc =>
      obtain ⟨hbackslash, hwild⟩ := not_or.1 hc
      rw [List.singleton_append, literal?, if_neg hwild, ih, Option.map_some]
      · exact fun _ _ h => absurd h hbackslash
      · exact fun h => absurd h hbackslash

theorem patternValue?_escapePattern (v : Value) : patternValue? (escapePattern v) = some v := by
  cases v with
  | text s =>
    rw [escapePattern, patternValue?, String.toList_ofList, literal?_escapeWildcards,
      Option.map_some, String.ofList_toList]
  | _ => rfl

theorem says_like {column : String} (hcolumn : Ascii.isWord column = true) (anchor : Anchor)
    (v : Value) :
    Fragment.Says d next ⟨likeLexemes column (.pattern anchor) next, [escapePattern v]⟩
      fun row => row.occurs column anchor v where
  legible := by
    have hslot : Legible d [.slot next] := legible_singleton (.slot next) trivial
    have hwildcard : Legible d [.wildcard] := legible_singleton .wildcard trivial
    have hescape : Legible d [.escape] := legible_singleton .escape trivial
    have hend : Legible d [.concat, .wildcard, .escape] :=
      .cons_closed .concat rfl trivial (hwildcard.append_spaced hescape rfl)
    refine (legible_column hcolumn).append_spaced (.cons_closed .like rfl trivial ?_) rfl
    cases anchor with
    | atStart => exact hslot.append_spaced hend rfl
    | atEnd =>
      exact hwildcard.append_spaced (.cons_closed .concat rfl trivial
        (hslot.append_spaced hescape rfl)) rfl
    | anywhere =>
      exact hwildcard.append_spaced (.cons_closed .concat rfl trivial
        (hslot.append_spaced hend rfl)) rfl
  reads := by
    refine ⟨.like column anchor next, fun rest => ?_, ?_⟩
    · cases anchor <;> exact plain_operand?_test rfl rfl
    · rintro row before after rfl
      rw [truth?, List.append_assoc, List.singleton_append, bound?_append, Option.bind_some,
        patternValue?_escapePattern, Option.map_some]

theorem says_constant (b : Bool) :
    Fragment.Says d next ⟨[.constant b], []⟩ fun _ => .ofBool b where
  legible := legible_singleton (.constant b) trivial
  reads := by
    refine ⟨.constant b, fun rest => ?_, fun _ _ _ _ => rfl⟩
    cases b <;> exact plain_operand?_numbers 1 _ rest

/-! ## Atoms -/

/-- **A test is rendered as an operand that says what the test says**: equality with null is the
null test, and membership is equality with some element. -/
theorem Atom.says_fragment (d : Dialect) (next : Nat) (a : Atom) :
    (a.fragment d next).Says d next fun row => row.valuation a.test := by
  obtain ⟨column, op, value⟩ := a
  have hcolumn := column.isWord_text
  cases op with
  | compare c =>
    cases c <;> cases value <;>
      first
        | exact says_compare hcolumn _ _
        | exact says_isNull hcolumn
        | exact says_isNotNull hcolumn
  | member =>
    change Fragment.Says d next _ fun row =>
      .any ((listed value).map (row.compare column.text .eq))
    simp only [fragment]
    cases listed value with
    | nil => exact says_constant false
    | cons v values =>
      cases d with
      | postgres => exact says_equalsAny hcolumn (v :: values)
      | sqlite => exact says_among hcolumn (List.cons_ne_nil v values)
  | pattern anchor => exact says_like hcolumn anchor value

/-! ## Chains -/

namespace Connective

/-- The lexeme of a connective. -/
def lexeme : Connective → Lexeme
  | .and => .and
  | .or => .or

/-- The truth of a chain without parts. -/
def unit : Connective → Bool
  | .and => true
  | .or => false

/-- The truth of a chain. -/
def fold : Connective → List Truth → Truth
  | .and => Truth.all
  | .or => Truth.any

theorem fold_nil (k : Connective) : k.fold [] = .ofBool k.unit := by cases k <;> rfl

theorem fold_cons (k : Connective) (t : Truth) (ts : List Truth) :
    k.fold (t :: ts) = k.truth t (k.fold ts) := by cases k <;> rfl

theorem fold_singleton (k : Connective) (t : Truth) : k.fold [t] = t := by
  cases k
  · exact Truth.and_holds t
  · exact Truth.or_fails t

theorem tokens_lexeme (k : Connective) : k.lexeme.tokens = [.word k.keyword] := by cases k <;> rfl

end Connective

/-- An operand is a part of a chain, unless the connective that binds tighter follows. -/
theorem plain_part?_of_operand {k : Connective} {tokens rest : List Token} {c : Clause}
    (h : plain (operand? tokens) = some (c, rest))
    (hrest : k = .or → ∀ t ∈ rest.head?, t.isWord Connective.and.keyword = false) :
    plain (part? k tokens) = some (c, rest) := by
  cases k with
  | and => rw [part?_and, h]
  | or =>
    rw [part?_or]
    exact plain_chain?_end (by rw [part?_and, h]) (hrest rfl)

section Chains

variable {f g : Fragment} {k : Connective} {m m' : RowReading → Truth}

/-- An operand alone is a chain of either connective. -/
theorem Fragment.Says.chain (h : f.Says d next m) (k : Connective) : f.ChainSays d k next m where
  legible := h.legible
  reads := by
    obtain ⟨c, hread, hmeans⟩ := h.reads
    refine ⟨c, fun rest hrest => plain_chain?_end ?_ fun t ht => hrest t ht k, hmeans⟩
    exact plain_part?_of_operand (hread rest) fun _ t ht => hrest t ht .and

/-- A chain of either connective stands alone in a chain of the one that binds weaker. -/
theorem Fragment.ChainSays.chain_or (h : f.ChainSays d k next m) : f.ChainSays d .or next m where
  legible := h.legible
  reads := by
    cases k with
    | or => exact h.reads
    | and =>
      obtain ⟨c, hread, hmeans⟩ := h.reads
      refine ⟨c, fun rest hrest => plain_chain?_end ?_ fun t ht => hrest t ht .or, hmeans⟩
      rw [part?_or, hread rest hrest]

/-- A chain in parentheses is one operand. -/
theorem Fragment.ChainSays.parenthesize (h : f.ChainSays d k next m) :
    f.parenthesize.Says d next m where
  legible := .cons_closed .openParen rfl trivial
    (h.legible.append_spaced (legible_singleton .closeParen trivial) rfl)
  reads := by
    obtain ⟨c, hread, hmeans⟩ := h.chain_or.reads
    refine ⟨c, fun rest => ?_, hmeans⟩
    have hend : EndsChain (.closeParen :: rest) := by
      rintro _ ⟨⟩ k
      rfl
    have htokens : tokensOf f.parenthesize.lexemes ++ rest =
        .openParen :: (tokensOf f.lexemes ++ .closeParen :: rest) := by
      rw [Fragment.parenthesize, List.cons_append, tokensOf_cons, tokensOf_append, tokensOf_cons,
        tokensOf_nil, List.append_nil, List.append_assoc, List.append_assoc]
      rfl
    rw [htokens]
    exact plain_operand?_parens (hread _ hend)

/-- An operand before a chain makes the chain longer. -/
theorem Fragment.Says.join (h : f.Says d next m)
    (hg : g.ChainSays d k (next + f.params.length) m') :
    Fragment.ChainSays d k next ⟨f.lexemes ++ k.lexeme :: g.lexemes, f.params ++ g.params⟩
      fun row => k.truth (m row) (m' row) where
  legible := h.legible.append_spaced
    (.cons_closed k.lexeme (by cases k <;> rfl) (by cases k <;> exact trivial) hg.legible)
    (by cases k <;> rfl)
  reads := by
    obtain ⟨c, hread, hmeans⟩ := h.reads
    obtain ⟨c', hread', hmeans'⟩ := hg.reads
    refine ⟨.join k c c', fun rest hrest => ?_, ?_⟩
    · have htokens : tokensOf (f.lexemes ++ k.lexeme :: g.lexemes) ++ rest =
          tokensOf f.lexemes ++ .word k.keyword :: (tokensOf g.lexemes ++ rest) := by
        rw [tokensOf_append, tokensOf_cons, k.tokens_lexeme, List.append_assoc, List.append_assoc]
        rfl
      rw [htokens]
      refine plain_chain?_join (plain_part?_of_operand (hread _) ?_) ?_ (hread' rest hrest)
      · rintro rfl _ ⟨⟩
        decide
      · exact Ascii.sameLetters_self _
    · rintro row before after hbefore
      have hleft : c.truth? row (before ++ (f.params ++ g.params) ++ after) = some (m row) := by
        have := hmeans row before (g.params ++ after) hbefore
        rwa [List.append_assoc, ← List.append_assoc f.params, ← List.append_assoc] at this
      have hright : c'.truth? row (before ++ (f.params ++ g.params) ++ after) = some (m' row) := by
        have := hmeans' row (before ++ f.params) after (by rw [List.length_append]; omega)
        rwa [List.append_assoc before] at this
      rw [truth?, hleft, hright]
      rfl

end Chains

theorem Fragment.joinWith_singleton (separator : Lexeme) (f : Fragment) :
    Fragment.joinWith separator [f] = f := by
  rw [joinWith, List.map_singleton, List.intercalate_singleton, List.flatMap_singleton]

theorem Fragment.joinWith_cons_cons (separator : Lexeme) (f g : Fragment) (fs : List Fragment) :
    Fragment.joinWith separator (f :: g :: fs) =
      ⟨f.lexemes ++ separator :: (Fragment.joinWith separator (g :: fs)).lexemes,
        f.params ++ (Fragment.joinWith separator (g :: fs)).params⟩ := by
  simp only [joinWith, List.map_cons, List.intercalate_cons_cons, List.flatMap_cons,
    List.append_assoc, List.singleton_append]

/-! ## Conditions -/

namespace Condition

/-- Parts that are rendered as operands make a chain. -/
theorem chainSays_fragments (k : Connective) {parts : List Condition} (hne : parts ≠ [])
    (h : ∀ c ∈ parts, ∀ next,
      (c.fragment d next).Says d next fun row => c.truth row.valuation) (next : Nat) :
    (Fragment.joinWith k.lexeme (fragments d next parts)).ChainSays d k next
      fun row => k.fold (truths row.valuation parts) := by
  induction parts generalizing next with
  | nil => exact absurd rfl hne
  | cons c parts ih =>
    have hc := h c List.mem_cons_self next
    match parts, ih with
    | [], _ =>
      simp only [fragments, truths, Fragment.joinWith_singleton, Connective.fold_singleton]
      exact hc.chain k
    | c' :: parts, ih =>
      have hparts := ih (List.cons_ne_nil c' parts) (fun c hc => h c (List.mem_cons_of_mem _ hc))
        (next + (c.fragment d next).params.length)
      have hjoin := hc.join hparts
      simp only [← Connective.fold_cons] at hjoin
      rw [fragments, fragments, Fragment.joinWith_cons_cons, ← fragments]
      exact hjoin

/-- A group of parts that are rendered as operands is one operand. -/
theorem says_group (k : Connective) {parts : List Condition}
    (h : ∀ c ∈ parts, ∀ next,
      (c.fragment d next).Says d next fun row => c.truth row.valuation) (next : Nat) :
    (group k.lexeme k.unit (fragments d next parts)).Says d next
      fun row => k.fold (truths row.valuation parts) := by
  match parts with
  | [] =>
    simp only [fragments, group, truths, Connective.fold_nil]
    exact says_constant k.unit
  | [c] =>
    simp only [fragments, group, truths, Connective.fold_singleton]
    exact h c List.mem_cons_self next
  | c :: c' :: parts => exact (chainSays_fragments k (List.cons_ne_nil c _) h next).parenthesize

/-- A negation before parentheses is one operand. -/
theorem says_not {f : Fragment} {m : RowReading → Truth} (h : f.Says d next m) :
    Fragment.Says d next ⟨.not :: f.parenthesize.lexemes, f.parenthesize.params⟩
      fun row => (m row).not where
  legible := .cons_closed .not rfl trivial (h.chain .or).parenthesize.legible
  reads := by
    obtain ⟨c, hread, hmeans⟩ := (h.chain .or).parenthesize.reads
    refine ⟨.not c, fun rest => plain_operand?_not rfl (hread rest), fun row before after hb => ?_⟩
    rw [truth?, hmeans row before after hb, Option.map_some]

mutual

/-- **A condition is rendered as one operand that says what the condition says**, by induction on
the condition. -/
theorem says_fragment (d : Dialect) : (c : Condition) → ∀ next,
    (c.fragment d next).Says d next fun row => c.truth row.valuation
  | .atom a, next => a.says_fragment d next
  | .all parts, next => says_group .and (says_fragment_of_mem d parts) next
  | .any parts, next => says_group .or (says_fragment_of_mem d parts) next
  | .not part, next => says_not (says_fragment d part next)

theorem says_fragment_of_mem (d : Dialect) : (parts : List Condition) → ∀ c ∈ parts, ∀ next,
    (c.fragment d next).Says d next fun row => c.truth row.valuation
  | part :: rest, c, hc, next =>
    (List.mem_cons.1 hc).elim (fun he => he ▸ says_fragment d part next)
      fun hc => says_fragment_of_mem d rest c hc next

end

end Condition

/-! ## Clauses -/

/-- The word WHERE and a chain are read as the chain. -/
theorem Fragment.ChainSays.ofText?_where {f : Fragment} {k : Connective} {m : RowReading → Truth}
    (h : f.ChainSays d k 1 m) : ∃ c, Clause.ofText? d (" WHERE " ++ f.text d) = some c ∧
      ∀ row, c.truth? row f.params = some (m row) := by
  obtain ⟨c, hread, hmeans⟩ := h.chain_or.reads
  refine ⟨c, ?_, fun row => ?_⟩
  · have htext : (" WHERE " ++ f.text d).toList =
        ' ' :: ("WHERE".toList ++ ' ' :: charsOf d f.lexemes) := by
      rw [String.toList_append, f.toList_text]
      rfl
    have hplain : plain (chain? .or (tokensOf f.lexemes)) = some (c, []) := by
      have := hread [] nofun
      rwa [List.append_nil] at this
    obtain ⟨fewer, hchain⟩ := exists_of_plain hplain
    rw [Clause.ofText?, htext, Token.scan?_keyword "WHERE" rfl, h.legible.scan?_charsOf]
    change (chain? .or (tokensOf f.lexemes)).bind _ = _
    rw [hchain]
    rfl
  · have := hmeans row [] [] rfl
    rwa [List.nil_append, List.append_nil] at this

namespace Query

/-- The truth of the rendered clause of a query on a row: its text as a database reads it, with the
bound values in the place of the slots. -/
def renderedTruth? (q : Query) (row : RowReading) : Option Truth :=
  (Clause.ofText? q.dialect q.whereText).bind fun c => c.truth? row q.select.params

theorem renderedTruth?_eq (q : Query) (row : RowReading) :
    q.renderedTruth? row = some (q.truth row.valuation) := by
  by_cases hparts : q.parts = []
  · have hwhere : q.whereText = "" := by rw [whereText, hparts]; rfl
    have hread : Clause.ofText? q.dialect "" = some (.constant true) := by
      rw [Clause.ofText?]
      change (Token.scan? q.dialect []).bind _ = _
      rw [Token.scan?_nil]
      rfl
    rw [renderedTruth?, hwhere, hread, truth, hparts]
    rfl
  · have hwhere : q.whereText = " WHERE " ++ q.condition.text q.dialect := by
      rw [whereText, if_neg (by rwa [List.isEmpty_iff])]
    have hsays := Condition.chainSays_fragments .and hparts
      (fun c _ next => c.says_fragment q.dialect next) 1
    obtain ⟨c, hread, htruth⟩ := hsays.ofText?_where
    rw [renderedTruth?, hwhere, condition]
    exact (congrArg (Option.bind · _) hread).trans (htruth row)

/-- **The clause of a query means its conditions.** -/
theorem whereText_meaning (q : Query) (row : RowReading) :
    q.renderedTruth? row = some (q.truth row.valuation) ∧
      ∀ d : Dialect, renderedTruth? { q with dialect := d } row = q.renderedTruth? row := by
  refine ⟨q.renderedTruth?_eq row, fun d => ?_⟩
  rw [renderedTruth?_eq, renderedTruth?_eq]
  rfl

end Query

end RequestQuery.Sql
