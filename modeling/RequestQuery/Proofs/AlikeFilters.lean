import RequestQuery.Proofs.AlikeStatements
import RequestQuery.Proofs.CheckedFilter
import RequestQuery.Proofs.ParsedFilter
import RequestQuery.Proofs.SpelledTokens
import RequestQuery.Proofs.Stages
import RequestQuery.Proofs.Whitelist

/-!
# Filters that differ in their literals only

Two filter texts are alike when their tokens are the same up to what stands between quotes and to
the integers. Alike tokens write alike filters (`derives_alike`, by induction on the derivation),
the check makes alike predicates of them (`check_alike`), and these become alike conditions
(`Predicate.Alike.related_condition`). So requests that are the same up to alike filters compile to
plans that no statement can tell apart (`Planner.alike_of_compile`). The main statement puts both
levels together: the texts of statements depend on values neither in the steps that build a query
nor in the filter of a request.
-/

namespace RequestQuery

open Fallible

/-! ## Tokens -/

/-- Elements related to those of two lists in a row are two lists in a row. -/
theorem exists_append_of_forall₂ {α β : Type} {R : α → β → Prop} {as bs : List α} {cs : List β}
    (h : List.Forall₂ R (as ++ bs) cs) :
    ∃ ds es, cs = ds ++ es ∧ List.Forall₂ R as ds ∧ List.Forall₂ R bs es := by
  induction as generalizing cs with
  | nil => exact ⟨[], cs, rfl, .nil, h⟩
  | cons a as ih =>
    obtain _ | ⟨hac, hrest⟩ := h
    obtain ⟨ds, es, rfl, hds, hes⟩ := ih hrest
    exact ⟨_ :: ds, es, rfl, .cons hac hds, hes⟩

/-- Literals that differ in a text or an integer only. -/
inductive Literal.Alike : Literal → Literal → Prop
  | text (s t : String) : Alike (.text s) (.text t)
  | int (n m : Int64) : Alike (.int n) (.int m)
  | same (l : Literal) : Alike l l

/-- Arguments that differ in a text or an integer only. -/
inductive Argument.Alike : Argument → Argument → Prop
  | column (name : String) : Alike (.column name) (.column name)
  | literal {l l' : Literal} (h : l.Alike l') : Alike (.literal l) (.literal l')

namespace Filter

/-- Filters that differ in texts and integers only. -/
inductive Alike : Filter → Filter → Prop
  | compare (column : String) (op : Comparison) {l l' : Literal} (h : l.Alike l') :
      Alike (.compare column op l) (.compare column op l')
  | call (function : String) {args args' : List Argument}
      (h : List.Forall₂ Argument.Alike args args') :
      Alike (.call function args) (.call function args')
  | and {f f' g g' : Filter} (left : Alike f f') (right : Alike g g') :
      Alike (.and f g) (.and f' g')
  | or {f f' g g' : Filter} (left : Alike f f') (right : Alike g g') : Alike (.or f g) (.or f' g')
  | not {f f' : Filter} (inner : Alike f f') : Alike (.not f) (.not f')

/-- Kinds of tokens that differ in what stands between quotes or in an integer only. -/
inductive Kind.Alike : Kind → Kind → Prop
  | text (s t : String) : Alike (.text s) (.text t)
  | int (n m : Int64) : Alike (.int n) (.int m)
  | same (k : Kind) : Alike k k

namespace Kind

variable {k k' : Kind}

theorem Alike.isWord_iff (h : k.Alike k') (word : String) : k.IsWord word ↔ k'.IsWord word := by
  cases h with
  | text s t => simp [IsWord]
  | int n m => simp [IsWord]
  | same k => exact Iff.rfl

theorem Alike.writesLiteral (h : k.Alike k') {l : Literal} (hl : k.WritesLiteral l) :
    ∃ l', k'.WritesLiteral l' ∧ l.Alike l' := by
  cases h with
  | same k => exact ⟨l, hl, .same l⟩
  | text s t =>
    cases hl with
    | text => exact ⟨_, .text t, .text s t⟩
    | true hk | false hk | null hk => obtain ⟨_, hs, -⟩ := hk; cases hs
  | int n m =>
    cases hl with
    | int => exact ⟨_, .int m, .int n m⟩
    | true hk | false hk | null hk => obtain ⟨_, hs, -⟩ := hk; cases hs

theorem Alike.writesArgument (h : k.Alike k') {a : Argument} (ha : k.WritesArgument a) :
    ∃ a', k'.WritesArgument a' ∧ a.Alike a' := by
  cases ha with
  | literal hl =>
    obtain ⟨l', hl', halike⟩ := h.writesLiteral hl
    exact ⟨_, .literal hl', .literal halike⟩
  | @column s hs =>
    cases h
    exact ⟨_, .column hs, .column s⟩

end Kind

variable {ks ks' : List Kind}

theorem beginsWithOperator_iff_of_alike (h : List.Forall₂ Kind.Alike ks ks') :
    BeginsWithOperator ks ↔ BeginsWithOperator ks' := by
  cases h with
  | nil => exact Iff.rfl
  | cons hk _ =>
    rw [beginsWithOperator_cons, beginsWithOperator_cons]
    exact exists_congr fun op => hk.isWord_iff op.word

theorem beginsWithNegation_iff_of_alike (h : List.Forall₂ Kind.Alike ks ks') :
    BeginsWithNegation ks ↔ BeginsWithNegation ks' := by
  cases h with
  | nil => exact Iff.rfl
  | cons hk hrest =>
    rw [beginsWithNegation_cons, beginsWithNegation_cons, hk.isWord_iff,
      beginsWithOperator_iff_of_alike hrest]

theorem WritesSomeArguments.alike {args : List Argument} (h : WritesSomeArguments ks args)
    (hks : List.Forall₂ Kind.Alike ks ks') :
    ∃ args', WritesSomeArguments ks' args' ∧ List.Forall₂ Argument.Alike args args' := by
  induction h generalizing ks' with
  | one ha =>
    obtain _ | ⟨hk, ⟨⟩⟩ := hks
    obtain ⟨a', ha', halike⟩ := hk.writesArgument ha
    exact ⟨[a'], .one ha', .cons halike .nil⟩
  | cons ha more ih =>
    obtain _ | ⟨hk, _ | ⟨⟨⟩, hrest⟩⟩ := hks
    obtain ⟨a', ha', halike⟩ := hk.writesArgument ha
    obtain ⟨args', hargs', hmore⟩ := ih hrest
    exact ⟨a' :: args', .cons ha' hargs', .cons halike hmore⟩

theorem WritesArguments.alike {args : List Argument} (h : WritesArguments ks args)
    (hks : List.Forall₂ Kind.Alike ks ks') :
    ∃ args', WritesArguments ks' args' ∧ List.Forall₂ Argument.Alike args args' := by
  obtain ⟨rfl, rfl⟩ | h := h
  · cases hks
    exact ⟨[], .inl ⟨rfl, rfl⟩, .nil⟩
  · obtain ⟨args', hargs', halike⟩ := h.alike hks
    exact ⟨args', .inr hargs', halike⟩

/-- **Alike tokens write alike filters**, nested equally deep. -/
theorem derives_alike {s : Symbol} {n : Nat} {f : Filter} (h : Derives s n ks f)
    (hks : List.Forall₂ Kind.Alike ks ks') : ∃ f', Derives s n ks' f' ∧ f.Alike f' := by
  induction h generalizing ks' with
  | conjunction h ih =>
    obtain ⟨f', hf', halike⟩ := ih hks
    exact ⟨f', .conjunction hf', halike⟩
  | or left word right ihl ihr =>
    obtain ⟨ls, rs, rfl, hls, hrs⟩ := exists_append_of_forall₂ hks
    obtain _ | ⟨hk, hrs⟩ := hrs
    obtain ⟨f', hf', hleft⟩ := ihl hls
    obtain ⟨g', hg', hright⟩ := ihr hrs
    exact ⟨_, .or hf' ((hk.isWord_iff _).1 word) hg', .or hleft hright⟩
  | operand h ih =>
    obtain ⟨f', hf', halike⟩ := ih hks
    exact ⟨f', .operand hf', halike⟩
  | and left word right ihl ihr =>
    obtain ⟨ls, rs, rfl, hls, hrs⟩ := exists_append_of_forall₂ hks
    obtain _ | ⟨hk, hrs⟩ := hrs
    obtain ⟨f', hf', hleft⟩ := ihl hls
    obtain ⟨g', hg', hright⟩ := ihr hrs
    exact ⟨_, .and hf' ((hk.isWord_iff _).1 word) hg', .and hleft hright⟩
  | not negation inner ih =>
    have hnegation := (beginsWithNegation_iff_of_alike hks).1 negation
    obtain _ | ⟨hk, hrest⟩ := hks
    obtain ⟨f', hf', halike⟩ := ih hrest
    exact ⟨_, .not hnegation hf', .not halike⟩
  | primary plain h ih =>
    obtain ⟨f', hf', halike⟩ := ih hks
    exact ⟨f', .primary (plain ∘ (beginsWithNegation_iff_of_alike hks).2) hf', halike⟩
  | group inner ih =>
    obtain _ | ⟨⟨⟩, hrest⟩ := hks
    obtain ⟨ls, rs, rfl, hls, hrs⟩ := exists_append_of_forall₂ hrest
    obtain _ | ⟨⟨⟩, ⟨⟩⟩ := hrs
    obtain ⟨f', hf', halike⟩ := ih hls
    exact ⟨f', .group hf', halike⟩
  | call function h =>
    obtain _ | ⟨⟨⟩, _ | ⟨⟨⟩, hrest⟩⟩ := hks
    obtain ⟨ls, rs, rfl, hls, hrs⟩ := exists_append_of_forall₂ hrest
    obtain _ | ⟨⟨⟩, ⟨⟩⟩ := hrs
    obtain ⟨args', hargs', halike⟩ := h.alike hls
    exact ⟨_, .call function hargs', .call function halike⟩
  | compare column operator literal =>
    obtain _ | ⟨⟨⟩, _ | ⟨ho, _ | ⟨hk, ⟨⟩⟩⟩⟩ := hks
    obtain ⟨l', hl', halike⟩ := hk.writesLiteral literal
    exact ⟨_, .compare column ((ho.isWord_iff _).1 operator) hl', .compare column _ halike⟩

/-- The kinds of the tokens of a filter text. -/
def tokenKinds (source : String) : Except Fault (List Kind) :=
  (·.map (·.kind)) <$> Token.scan source

/-- Filter texts whose tokens differ in what stands between quotes and in integers only. -/
def AlikeTexts (source source' : String) : Prop :=
  ∃ ks ks', tokenKinds source = .ok ks ∧ tokenKinds source' = .ok ks' ∧
    List.Forall₂ Kind.Alike ks ks'

/-- A text that spells tokens with blanks between them has these tokens. -/
theorem tokenKinds_of_spellAll {source : String} {ks : List Kind} (hks : ∀ k ∈ ks, k.Legible)
    (h : source.toList = spellAll ks) : tokenKinds source = .ok ks := by
  obtain ⟨tokens, htokens, hkinds⟩ := scanFrom_spellAll hks 0
  rw [← h] at htokens
  exact map_eq_ok.2 ⟨tokens, htokens, hkinds⟩

/-- The tokens of a text that parses derive the filter. -/
theorem derives_of_parse {source : String} {depth : Nat} {f : Filter}
    (h : parse depth source = .ok f) :
    ∃ ks, tokenKinds source = .ok ks ∧ ∃ n ≤ depth, Derives .disjunction n ks f := by
  obtain ⟨ts, hts, hparse⟩ := bind_eq_ok.1 h
  exact ⟨_, map_eq_ok.2 ⟨ts, hts, rfl⟩, derives_of_parseTokens hparse⟩

/-- A text whose tokens derive a filter, nested no deeper than allowed, parses to it. -/
theorem parse_of_derives {source : String} {depth n : Nat} {ks : List Kind} {f : Filter}
    (hks : tokenKinds source = .ok ks) (h : Derives .disjunction n ks f) (hn : n ≤ depth) :
    parse depth source = .ok f := by
  obtain ⟨ts, hts, rfl⟩ := map_eq_ok.1 hks
  exact bind_eq_ok.2 ⟨ts, hts, parseTokens_of_derives h hn⟩

/-- **Alike texts parse to alike filters.** -/
theorem alike_of_parse {source source' : String} (h : AlikeTexts source source') {depth : Nat}
    {f f' : Filter} (hf : parse depth source = .ok f) (hf' : parse depth source' = .ok f') :
    f.Alike f' := by
  obtain ⟨ks, ks', hks, hks', halike⟩ := h
  obtain ⟨ls, hls, n, hn, hder⟩ := derives_of_parse hf
  obtain rfl : ks = ls := Except.ok.inj (hks.symm.trans hls)
  obtain ⟨g, hg, hfg⟩ := derives_alike hder halike
  rw [Except.ok.inj (hf'.symm.trans (parse_of_derives hks' hg hn))]
  exact hfg

end Filter

/-! ## Predicates -/

/-- Predicates that differ in values only, of which both are null or neither is. -/
inductive Predicate.Alike : Predicate → Predicate → Prop
  | compare (column : String) (op : Comparison) {v w : Value} (h : v.isNull = w.isNull) :
      Alike (.compare column op v) (.compare column op w)
  | isNull (column : String) (negated : Bool) :
      Alike (.isNull column negated) (.isNull column negated)
  | like (column : String) (anchor : Anchor) (s t : String) :
      Alike (.like column anchor s) (.like column anchor t)
  | and {p p' q q' : Predicate} (left : Alike p p') (right : Alike q q') :
      Alike (.and p q) (.and p' q')
  | or {p p' q q' : Predicate} (left : Alike p p') (right : Alike q q') :
      Alike (.or p q) (.or p' q')
  | not {p p' : Predicate} (inner : Alike p p') : Alike (.not p) (.not p')

theorem Predicate.Alike.refl (p : Predicate) : p.Alike p := by
  induction p with
  | compare column op value => exact .compare column op rfl
  | isNull column negated => exact .isNull column negated
  | like column anchor text => exact .like column anchor text text
  | and left right ihl ihr => exact .and ihl ihr
  | or left right ihl ihr => exact .or ihl ihr
  | not inner ih => exact .not ih

theorem Literal.Alike.isNull_value {l l' : Literal} (h : l.Alike l') :
    l.value.isNull = l'.value.isNull := by
  cases h <;> rfl

theorem Literal.Alike.null_iff {l l' : Literal} (h : l.Alike l') : l = .null ↔ l' = .null := by
  cases h with
  | text s t => exact ⟨nofun, nofun⟩
  | int n m => exact ⟨nofun, nofun⟩
  | same l => exact Iff.rfl

/-- A comparison with a literal other than null is one with its value. -/
theorem Filter.eq_of_checkCompare {r : Resource} {column : String} {op : Comparison} {l : Literal}
    {p : Predicate} (hl : l ≠ .null) (h : checkCompare r column op l = .ok p) :
    p = .compare column op l.value := by
  obtain ⟨-, ⟨-, hnull, -⟩ | ⟨-, hnull, -⟩ | ⟨-, hp⟩⟩ := checkCompare_eq_ok.1 h
  · exact absurd hnull hl
  · exact absurd hnull hl
  · exact hp

/-- **The check of alike filters gives alike predicates.** -/
theorem Filter.check_alike {r : Resource} {f f' : Filter} (h : f.Alike f') {p p' : Predicate}
    (hp : check r f = .ok p) (hp' : check r f' = .ok p') : p.Alike p' := by
  induction h generalizing p p' with
  | @compare column op l l' hl =>
    by_cases hnull : l = .null
    · subst hnull
      obtain rfl := hl.null_iff.1 rfl
      rw [Except.ok.inj (hp.symm.trans hp')]
      exact .refl p'
    · obtain rfl := eq_of_checkCompare hnull hp
      obtain rfl := eq_of_checkCompare (hnull ∘ hl.null_iff.2) hp'
      exact .compare column op hl.isNull_value
  | call function hargs =>
    obtain ⟨anchor, column, text, hf, rfl, -, rfl⟩ := checkCall_eq_ok.1 hp
    obtain ⟨anchor', column', text', hf', rfl, -, rfl⟩ := checkCall_eq_ok.1 hp'
    obtain rfl : anchor = anchor' := Option.some.inj (hf.symm.trans hf')
    obtain _ | ⟨⟨⟩, -⟩ := hargs
    exact .like column anchor text text'
  | and _ _ ihl ihr =>
    obtain ⟨p₁, p₂, h₁, h₂, rfl⟩ := check_and_eq_ok.1 hp
    obtain ⟨q₁, q₂, h₁', h₂', rfl⟩ := check_and_eq_ok.1 hp'
    exact .and (ihl h₁ h₁') (ihr h₂ h₂')
  | or _ _ ihl ihr =>
    obtain ⟨p₁, p₂, h₁, h₂, rfl⟩ := check_or_eq_ok.1 hp
    obtain ⟨q₁, q₂, h₁', h₂', rfl⟩ := check_or_eq_ok.1 hp'
    exact .or (ihl h₁ h₁') (ihr h₂ h₂')
  | not _ ih =>
    obtain ⟨p₁, h₁, rfl⟩ := check_not_eq_ok.1 hp
    obtain ⟨q₁, h₁', rfl⟩ := check_not_eq_ok.1 hp'
    exact .not (ih h₁ h₁')

/-- **Alike texts compile to alike predicates.** -/
theorem Filter.alike_of_compile {source source' : String} (h : AlikeTexts source source')
    {r : Resource} {limits : Limits} {p p' : Predicate} (hp : compile source r limits = .ok p)
    (hp' : compile source' r limits = .ok p') : p.Alike p' := by
  obtain ⟨f, hf, hcheck⟩ := exists_check_of_compile hp
  obtain ⟨f', hf', hcheck'⟩ := exists_check_of_compile hp'
  exact check_alike (alike_of_parse h hf hf') hcheck hcheck'

namespace Predicate

open Sql (Condition)

theorem alike_conjuncts {c d : Condition} (h : c.Alike d) :
    List.Forall₂ Condition.Alike (conjuncts c) (conjuncts d) := by
  cases h with
  | all hparts => exact hparts
  | atom ha => exact .cons (.atom ha) .nil
  | any hparts => exact .cons (.any hparts) .nil
  | not hpart => exact .cons (.not hpart) .nil

theorem alike_disjuncts {c d : Condition} (h : c.Alike d) :
    List.Forall₂ Condition.Alike (disjuncts c) (disjuncts d) := by
  cases h with
  | any hparts => exact hparts
  | atom ha => exact .cons (.atom ha) .nil
  | all hparts => exact .cons (.all hparts) .nil
  | not hpart => exact .cons (.not hpart) .nil

theorem related_atom (column : String) {op : Sql.Operator} {v w : Value} (h : op.Alike v w) :
    Related (ε := Sql.BadName) Condition.Alike (atom column op v) (atom column op w) := by
  have hatom : Related Sql.Atom.Alike (Sql.Atom.ofName column op v) (Sql.Atom.ofName column op w) :=
    (Related.same (fun _ => rfl) _).bind fun _ _ hcolumn => .ok ⟨hcolumn, rfl, h⟩
  exact hatom.bind fun _ _ ha => .ok (.atom ha)

/-- **Alike predicates become alike conditions**, or are refused by the same name. -/
theorem Alike.related_condition {p p' : Predicate} (h : p.Alike p') :
    Related Condition.Alike p.condition p'.condition := by
  induction h with
  | compare column op hnull => exact related_atom column ⟨hnull, nofun⟩
  | isNull column negated => exact related_atom column (.refl _ _)
  | like column anchor s t => exact related_atom column ⟨rfl, nofun⟩
  | and _ _ ihl ihr =>
    exact ihl.bind fun _ _ hl => ihr.bind fun _ _ hr =>
      .ok (.all (List.rel_append (alike_conjuncts hl) (alike_conjuncts hr)))
  | or _ _ ihl ihr =>
    exact ihl.bind fun _ _ hl => ihr.bind fun _ _ hr =>
      .ok (.any (List.rel_append (alike_disjuncts hl) (alike_disjuncts hr)))
  | not _ ih => exact ih.bind fun _ _ h => .ok (.not h)

end Predicate

/-! ## Plans -/

/-- Plans that are the same up to alike predicates. -/
structure Plan.Alike (p p' : Plan) : Prop where
  predicate : List.Forall₂ Predicate.Alike p.predicate.toList p'.predicate.toList
  rest : p' = { p with predicate := p'.predicate }

namespace Plan

/-- The same step, up to alike predicates. -/
inductive Step.Alike : Step → Step → Prop
  | filter {p p' : Predicate} (h : p.Alike p') : Alike (.filter p) (.filter p')
  | same (step : Step) : Alike step step

/-- **A step keeps queries alike**, or is refused in both. -/
theorem Step.related_applyTo {q q' : Sql.Query} (hq : q.Alike q') {step step' : Step}
    (h : step.Alike step') : Related Sql.Query.Alike (step.applyTo q) (step'.applyTo q') := by
  cases h with
  | filter hp => exact hp.related_condition.bind fun _ _ hc => .ok (hq.filterTree hc)
  | same step =>
    cases step with
    | select columns => exact hq.fields columns
    | filter predicate =>
      exact (Predicate.Alike.refl predicate).related_condition.bind fun _ _ hc =>
        .ok (hq.filterTree hc)
    | orderBy column direction => exact hq.sort column direction
    | offset rows => exact .ok (hq.offset rows)
    | limit rows => exact .ok (hq.limit rows)

/-- Alike plans take the same steps, up to alike predicates. -/
theorem Alike.steps {p p' : Plan} (h : p.Alike p') :
    List.Forall₂ Step.Alike p.steps p'.steps := by
  have hsame : ∀ steps : List Step, List.Forall₂ Step.Alike steps steps := fun steps =>
    List.forall₂_same.2 fun step _ => .same step
  have hfilters : List.Forall₂ Step.Alike (p.predicate.toList.map .filter)
      (p'.predicate.toList.map .filter) :=
    List.rel_map (fun _ _ => .filter) h.predicate
  rw [Plan.steps, Plan.steps, h.rest]
  refine List.rel_append (List.rel_append (List.rel_append ?_ (hsame _)) (hsame _)) (hsame _)
  exact List.rel_append (hsame _) hfilters

/-- **Alike plans make alike queries of a query**, or are refused for the same reason. -/
theorem Alike.related_applyTo {p p' : Plan} (h : p.Alike p') (q : Sql.Query) :
    Related Sql.Query.Alike (p.applyTo q) (p'.applyTo q) :=
  Related.foldlM (R := Sql.Query.Alike) (T := Step.Alike)
    (fun _ _ _ _ hq hstep => Step.related_applyTo hq hstep) h.steps (.refl q)

/-- Plans that are restricted to the same row stay alike. -/
theorem Alike.forRow {p p' : Plan} (h : p.Alike p') (row : Predicate) :
    (p.forRow row).Alike (p'.forRow row) := by
  obtain ⟨hpredicate, hrest⟩ := h
  refine ⟨.cons ?_ .nil, by rw [hrest]; rfl⟩
  cases hp : p.predicate with
  | none =>
    rw [hp] at hpredicate
    cases hp' : p'.predicate with
    | none => exact .refl row
    | some _ => rw [hp'] at hpredicate; cases hpredicate
  | some f =>
    rw [hp] at hpredicate
    cases hp' : p'.predicate with
    | none => rw [hp'] at hpredicate; cases hpredicate
    | some f' =>
      rw [hp'] at hpredicate
      obtain _ | ⟨hf, -⟩ := hpredicate
      exact .and (.refl row) hf

end Plan

/-! ## Requests -/

/-- Requests that are the same up to alike filters. -/
structure Parameters.Alike (a b : Parameters) : Prop where
  filters : ∃ source source', a.get? QueryOption.filter.key = some [source] ∧
    b.get? QueryOption.filter.key = some [source'] ∧ Filter.AlikeTexts source source'
  others : ∀ key, key ≠ QueryOption.filter.key → a.get? key = b.get? key

namespace Options

variable {a b : Parameters} {contract : Contract} {limits : Limits} {o o' : Options}

theorem Reads.filter_eq {source : String} (h : Reads a contract limits o)
    (hsource : a.get? QueryOption.filter.key = some [source]) : o.filter = some source := by
  have hsingle : single? a .filter = .ok (some source) := by
    unfold single?
    rw [hsource]
  obtain ⟨value, hvalue, hread⟩ := bind_eq_ok.1 h.filter
  obtain rfl : value = some source := Except.ok.inj (hvalue.symm.trans hsingle)
  rw [readOr] at hread
  obtain ⟨text, htext, hfilter⟩ := map_eq_ok.1 hread
  unfold readFilter at htext
  split at htext
  · cases htext
  · cases htext
    exact hfilter.symm

/-- The options of alike requests are the same, but for the filter. -/
theorem Reads.eq_of_alike (h : a.Alike b) (ho : Reads a contract limits o)
    (ho' : Reads b contract limits o') : o' = { o with filter := o'.filter } := by
  have hget : ∀ option : QueryOption, option ≠ .filter → a.get? option.key = b.get? option.key :=
    fun option hne => h.others _ (by cases option <;> simp [QueryOption.key] at hne ⊢)
  have hsingle : ∀ option : QueryOption, option ≠ .filter → single? a option = single? b option :=
    fun option hne => by rw [single?, single?, hget option hne]
  have hentries : ∀ option : QueryOption, option ≠ .filter → entries a option = entries b option :=
    fun option hne => by rw [entries, entries, hget option hne]
  have htop : o.top = o'.top :=
    Except.ok.inj (ho.top.symm.trans (hsingle .top nofun ▸ ho'.top))
  have hskip : o.skip = o'.skip :=
    Except.ok.inj (ho.skip.symm.trans (hsingle .skip nofun ▸ ho'.skip))
  have hcount : o.count = o'.count :=
    Except.ok.inj (ho.count.symm.trans (hsingle .count nofun ▸ ho'.count))
  have hsort : o.sort = o'.sort :=
    Except.ok.inj (ho.sort.symm.trans (hentries .sort nofun ▸ ho'.sort))
  have hexpand : o.expand = o'.expand := by
    rw [ho.expand, ho'.expand, hentries .expand nofun]
  have hselect : o.select = o'.select := by
    rw [ho.select, ho'.select, hentries .select nofun]
  rw [htop, hskip, hcount, hsort, hexpand, hselect]

end Options

namespace Planner

variable {p : Planner} {resource : String} {parameters parameters' : Parameters}

/-- The stages of the compilation of alike requests give the same, but for the filter. -/
theorem Passes.alike (h : parameters.Alike parameters') {x x' : Results}
    (hx : p.Passes resource parameters x) (hx' : p.Passes resource parameters' x') :
    x.root = x'.root ∧ x.plan.Alike x'.plan := by
  have hroot : x.root = x'.root := Option.some.inj (hx.root.symm.trans hx'.root)
  have ho := Options.validate_eq_ok.1 hx.options
  have ho' := Options.validate_eq_ok.1 hx'.options
  have hoptions := ho.eq_of_alike h ho'
  have hexpand : x.options.expand = x'.options.expand := by rw [hoptions]
  have hselect : x.options.select = x'.options.select := by rw [hoptions]
  have hbare : x.bare = x'.bare := Except.ok.inj (hx.expand.symm.trans (hexpand ▸ hx'.expand))
  have hboth : (x.selection, x.expansion) = (x'.selection, x'.expansion) := by
    have hselected := hx'.select
    rw [← hroot, ← hselect, ← hbare] at hselected
    exact Except.ok.inj (hx.select.symm.trans hselected)
  obtain ⟨hselection, hexpansion⟩ := Prod.mk.inj hboth
  refine ⟨hroot, ?_, ?_⟩
  · obtain ⟨source, source', hsource, hsource', htexts⟩ := h.filters
    have hfilter := hx.filter
    have hfilter' := hx'.filter
    rw [ho.filter_eq hsource] at hfilter
    rw [ho'.filter_eq hsource', ← hroot] at hfilter'
    obtain ⟨f, hf, hxf⟩ := map_eq_ok.1 hfilter
    obtain ⟨f', hf', hxf'⟩ := map_eq_ok.1 hfilter'
    rw [Results.plan, Results.plan, ← hxf, ← hxf']
    exact .cons (Filter.alike_of_compile htexts hf hf') .nil
  · rw [Results.plan, Results.plan, ← hroot, hoptions, ← hselection, ← hexpansion]

/-- **Alike requests compile to alike plans.** -/
theorem alike_of_compile (h : parameters.Alike parameters') {id : Option (List Value)}
    {plan plan' : Plan} (hplan : p.compile resource parameters id = .ok plan)
    (hplan' : p.compile resource parameters' id = .ok plan') : plan.Alike plan' := by
  obtain ⟨x, hx, hresult⟩ := results_of_compile hplan
  obtain ⟨x', hx', hresult'⟩ := results_of_compile hplan'
  obtain ⟨hroot, halike⟩ := hx.alike h hx'
  cases id with
  | none =>
    obtain rfl : plan = x.plan := hresult
    obtain rfl : plan' = x'.plan := hresult'
    exact halike
  | some id =>
    obtain ⟨row, hrow, rfl⟩ := hresult
    obtain ⟨row', hrow', rfl⟩ := hresult'
    rw [← hroot] at hrow'
    obtain rfl : row = row' := Except.ok.inj (hrow.symm.trans hrow')
    exact halike.forRow row

/-- **The texts of statements do not depend on values.** Steps of building a query that differ only
in values, of which both are null or neither is and which list equally many elements where they are
looked up in, build statements of the same texts, or are refused for the same reason, for both
databases. So do the plans of two requests whose filters differ only in what stands between quotes
and in integers, on every query. -/
theorem texts_independent :
    (∀ (d : Sql.Dialect) (table : String) (steps steps' : List Sql.Query.Step),
      List.Forall₂ Sql.Query.Step.Alike steps steps' →
        (Sql.Query.build d table steps).map (·.texts) =
          (Sql.Query.build d table steps').map (·.texts)) ∧
      ∀ (p : Planner) (resource : String) (parameters parameters' : Parameters)
        (id : Option (List Value)) (plan plan' : Plan), parameters.Alike parameters' →
          p.compile resource parameters id = .ok plan →
            p.compile resource parameters' id = .ok plan' →
              ∀ q : Sql.Query,
                (plan.applyTo q).map (·.texts) = (plan'.applyTo q).map (·.texts) := by
  constructor
  · intro d table steps steps' h
    exact (Sql.Query.related_build d table h).map_eq fun _ _ hq => hq.texts_eq
  · intro p resource parameters parameters' id plan plan' h hplan hplan' q
    exact ((alike_of_compile h hplan hplan').related_applyTo q).map_eq fun _ _ hq => hq.texts_eq

/-- The steps to the staff of a tenant who have a name or are of none of two ranks. -/
def tenantSteps (tenant : Int64) (name : String) (ranks : Value × Value) : List Sql.Query.Step :=
  [.fields ["id", "name"], .filter "tenant_id" (.compare .eq) (.int tenant),
    .filterTree (.any [.atom ⟨⟨"name", by decide⟩, .pattern .atStart, .text name⟩,
      .not (.atom ⟨⟨"rank", by decide⟩, .member, .list [ranks.1, ranks.2]⟩)]),
    .sort "name" .descending, .limit 10]

/-- The tokens of a filter by a name and a bound of the id. -/
def nameAndBound (name : String) (bound : Int64) : List Filter.Kind :=
  [.word "name", .word "eq", .text name, .word "and", .word "id", .word "lt", .int bound]

/-- A request for the staff that a filter keeps. -/
def filteredStaff (source : String) : Parameters :=
  .ofPairs [("$sort", "-name"), ("$filter", source)]

/-- The options of such a request. -/
def filteredOptions (source : String) : Options where
  filter := some source
  sort := [⟨"name", .descending⟩]
  skip := none
  top := ({} : Limits).defaultTop
  expand := []
  select := []
  count := false

theorem legible_nameAndBound (name : String) (bound : Int64) :
    ∀ k ∈ nameAndBound name bound, k.Legible := by
  have hname : Filter.IsName "name" := Filter.isName_of_letters rfl rfl
  have heq : Filter.IsName "eq" := Filter.isName_of_letters rfl rfl
  have hand : Filter.IsName "and" := Filter.isName_of_letters rfl rfl
  have hid : Filter.IsName "id" := Filter.isName_of_letters rfl rfl
  have hlt : Filter.IsName "lt" := Filter.isName_of_letters rfl rfl
  simp only [nameAndBound, List.forall_mem_cons]
  exact ⟨hname, heq, trivial, hand, hid, hlt, trivial, nofun⟩

theorem alike_nameAndBound (name name' : String) (bound bound' : Int64) :
    List.Forall₂ Filter.Kind.Alike (nameAndBound name bound) (nameAndBound name' bound') :=
  .cons (.same _) (.cons (.same _) (.cons (.text _ _) (.cons (.same _) (.cons (.same _)
    (.cons (.same _) (.cons (.int _ _) .nil))))))

theorem alike_filteredStaff {source source' : String} (h : Filter.AlikeTexts source source') :
    (filteredStaff source).Alike (filteredStaff source') where
  filters := ⟨source, source', by rfl, by rfl, h⟩
  others _ hkey :=
    (Parameters.get?_push_of_ne _ hkey _).trans (Parameters.get?_push_of_ne _ hkey _).symm

theorem exists_compile_filteredStaff {source name : String} {bound : Int64}
    (hks : Filter.tokenKinds source = .ok (nameAndBound name bound))
    (hlength : Filter.checkLength source {} = .ok ())
    (hoptions : Options.validate (filteredStaff source) {} {} = .ok (filteredOptions source)) :
    ∃ plan, compile ⟨staffSchema, {}⟩ "staff" (filteredStaff source) none = .ok plan := by
  have hname : Filter.Derives .operand 0 [.word "name", .word "eq", .text name]
      (.compare "name" .eq (.text name)) :=
    .operand_compare "name" ⟨"eq", rfl, by decide⟩ (.text name)
  have hid : Filter.Derives .operand 0 [.word "id", .word "lt", .int bound]
      (.compare "id" .lt (.int bound)) :=
    .operand_compare "id" ⟨"lt", rfl, by decide⟩ (.int bound)
  have hder : Filter.Derives .disjunction 0 (nameAndBound name bound)
      (.and (.compare "name" .eq (.text name)) (.compare "id" .lt (.int bound))) :=
    .conjunction (.and (.operand hname) ⟨"and", rfl, by decide⟩ hid)
  have hparse := Filter.parse_of_derives hks hder (Nat.zero_le (Limits.maxFilterDepth {}))
  have hcompile : Filter.compile source staff {} =
      .ok (.and (.compare "name" .eq (.text name)) (.compare "id" .lt (.int bound))) :=
    check_bind_eq_ok.2 ⟨hlength, mapError_eq_ok.2 (bind_eq_ok.2 ⟨_, hparse, by rfl⟩)⟩
  let x : Results := ⟨staff, filteredOptions source,
    some (.and (.compare "name" .eq (.text name)) (.compare "id" .lt (.int bound))), .empty, .empty,
    .empty⟩
  have hx : Passes ⟨staffSchema, {}⟩ "staff" (filteredStaff source) x :=
    ⟨by rfl, hoptions, map_eq_ok.2 ⟨_, hcompile, rfl⟩, by rfl, by rfl, by rfl⟩
  exact ⟨x.plan, collection_eq_ok.2 ⟨x, hx, rfl⟩⟩

theorem texts_independent_staff :
    (List.Forall₂ Sql.Query.Step.Alike (tenantSteps 7 "Ann" (.int 1, .null))
      (tenantSteps 8 "' OR 1=1 --" (.text "a", .bool true)) ∧ ∀ d : Sql.Dialect,
        (Sql.Query.build d "staff" (tenantSteps 7 "Ann" (.int 1, .null))).map (·.texts) =
          (Sql.Query.build d "staff" (tenantSteps 8 "' OR 1=1 --" (.text "a", .bool true))).map
            (·.texts)) ∧
      (filteredStaff "name eq 'Ann' and id lt 10").Alike
          (filteredStaff "name eq ''' or 1=1 --' and id lt -7") ∧
        ∃ plan plan', compile ⟨staffSchema, {}⟩ "staff"
            (filteredStaff "name eq 'Ann' and id lt 10") none = .ok plan ∧
          compile ⟨staffSchema, {}⟩ "staff"
            (filteredStaff "name eq ''' or 1=1 --' and id lt -7") none = .ok plan' ∧
            ∀ q : Sql.Query, (plan.applyTo q).map (·.texts) = (plan'.applyTo q).map (·.texts) := by
  have hsteps : List.Forall₂ Sql.Query.Step.Alike (tenantSteps 7 "Ann" (.int 1, .null))
      (tenantSteps 8 "' OR 1=1 --" (.text "a", .bool true)) := by
    have hname : (Sql.Atom.mk ⟨"name", by decide⟩ (.pattern .atStart) (.text "Ann")).Alike
        ⟨⟨"name", by decide⟩, .pattern .atStart, .text "' OR 1=1 --"⟩ := ⟨rfl, rfl, rfl, nofun⟩
    have hranks : (Sql.Atom.mk ⟨"rank", by decide⟩ .member (.list [.int 1, .null])).Alike
        ⟨⟨"rank", by decide⟩, .member, .list [.text "a", .bool true]⟩ :=
      ⟨rfl, rfl, rfl, fun _ => rfl⟩
    exact .cons (.fields _) (.cons (.filter _ ⟨rfl, nofun⟩) (.cons (.filterTree (.any
      (.cons (.atom hname) (.cons (.not (.atom hranks)) .nil)))) (.cons (.sort _ _)
        (.cons (.limit _) .nil))))
  have hks : Filter.tokenKinds "name eq 'Ann' and id lt 10" = .ok (nameAndBound "Ann" 10) :=
    Filter.tokenKinds_of_spellAll (legible_nameAndBound _ _) (by decide)
  have hks' : Filter.tokenKinds "name eq ''' or 1=1 --' and id lt -7" =
      .ok (nameAndBound "' or 1=1 --" (-7)) :=
    Filter.tokenKinds_of_spellAll (legible_nameAndBound _ _) (by decide)
  have hrequests := alike_filteredStaff ⟨_, _, hks, hks', alike_nameAndBound _ _ _ _⟩
  obtain ⟨plan, hplan⟩ := exists_compile_filteredStaff hks (by rfl) (by rfl)
  obtain ⟨plan', hplan'⟩ := exists_compile_filteredStaff hks' (by rfl) (by rfl)
  exact ⟨⟨hsteps, fun d => texts_independent.1 d "staff" _ _ hsteps⟩, hrequests, plan, plan', hplan,
    hplan', texts_independent.2 _ _ _ _ _ _ _ hrequests hplan hplan'⟩

end Planner

end RequestQuery
