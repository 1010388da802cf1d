import RequestQuery.Proofs.FilterGrammar

/-!
# The steps of the parser

Each parser returns the tokens that it leaves together with a proof that they are fewer. What it
gives without the proof is `plain`, and of that every parser has an equation: what it does first,
and which parsers then go on with the tokens left. Whatever is shown about the parser of filters
follows from these equations, and none of its definitions is opened again.

* `plain_disjunction`, `plain_conjunction`, `plain_operand`, `plain_primary_group` and its
  neighbours: one equation for each rule of the grammar.
* `of_plain_eq_ok`: the tokens left are fewer, which is what inductions on parsers need.
-/

namespace RequestQuery.Filter

/-! ## Parsers as equations -/

/-- What a parser gives: its result and the tokens left, without the proof that they are fewer. -/
def plain {α : Type} {P : List Token → Prop} :
    Except Fault (α × { rest : List Token // P rest }) → Except Fault (α × List Token)
  | .error fault => .error fault
  | .ok (a, ⟨rest, _⟩) => .ok (a, rest)

section Equations

variable (b : Bounds) (depth : Nat)

theorem plain_disjunction (tokens : List Token) : plain (disjunction b depth tokens) =
    plain (conjunction b depth tokens) >>= fun p => plain (disjuncts b depth p.1 p.2) := by
  rw [disjunction]
  cases conjunction b depth tokens with
  | error fault => rfl
  | ok p =>
    obtain ⟨g, mid, h⟩ := p
    change plain (disjuncts b depth g mid >>= _) = plain (disjuncts b depth g mid)
    cases disjuncts b depth g mid <;> rfl

theorem plain_disjuncts_nil (sofar : Filter) :
    plain (disjuncts b depth sofar []) = .ok (sofar, []) := by
  rw [disjuncts]
  rfl

theorem plain_disjuncts_cons (sofar : Filter) (t : Token) (more : List Token) :
    plain (disjuncts b depth sofar (t :: more)) =
      if t.isWord "or" then
        plain (conjunction b depth more) >>= fun p => plain (disjuncts b depth (.or sofar p.1) p.2)
      else .ok (sofar, t :: more) := by
  rw [disjuncts]
  split
  · cases conjunction b depth more with
    | error fault => rfl
    | ok p =>
      obtain ⟨g, mid, h⟩ := p
      change plain (disjuncts b depth _ mid >>= _) = plain (disjuncts b depth _ mid)
      cases disjuncts b depth (.or sofar g) mid <;> rfl
  · rfl

theorem plain_conjunction (tokens : List Token) : plain (conjunction b depth tokens) =
    plain (operand b depth tokens) >>= fun p => plain (conjuncts b depth p.1 p.2) := by
  rw [conjunction]
  cases operand b depth tokens with
  | error fault => rfl
  | ok p =>
    obtain ⟨g, mid, h⟩ := p
    change plain (conjuncts b depth g mid >>= _) = plain (conjuncts b depth g mid)
    cases conjuncts b depth g mid <;> rfl

theorem plain_conjuncts_nil (sofar : Filter) :
    plain (conjuncts b depth sofar []) = .ok (sofar, []) := by
  rw [conjuncts]
  rfl

theorem plain_conjuncts_cons (sofar : Filter) (t : Token) (more : List Token) :
    plain (conjuncts b depth sofar (t :: more)) =
      if t.isWord "and" then
        plain (operand b depth more) >>= fun p => plain (conjuncts b depth (.and sofar p.1) p.2)
      else .ok (sofar, t :: more) := by
  rw [conjuncts]
  split
  · cases operand b depth more with
    | error fault => rfl
    | ok p =>
      obtain ⟨g, mid, h⟩ := p
      change plain (conjuncts b depth _ mid >>= _) = plain (conjuncts b depth _ mid)
      cases conjuncts b depth (.and sofar g) mid <;> rfl
  · rfl

theorem plain_operand (tokens : List Token) : plain (operand b depth tokens) =
    if startsNegation tokens then
      b.enter depth >>= fun deeper =>
        plain (operand b deeper tokens.tail) >>= fun p => .ok (.not p.1, p.2)
    else plain (primary b depth tokens) := by
  rw [operand.eq_def]
  split
  · next t more =>
    split
    · cases b.enter depth with
      | error fault => rfl
      | ok deeper =>
        change plain (operand b deeper more >>= _) = plain (operand b deeper more) >>= _
        cases operand b deeper more <;> rfl
    · rfl
  · rfl

/-- The end of a group after its filter: the closing parenthesis. -/
def closeGroup : Filter × List Token → Except Fault (Filter × List Token)
  | (f, ⟨.closeParen, _, _⟩ :: left) => .ok (f, left)
  | (_, rest) => .error (.malformed (b.position rest) .closeExpected)

variable (i j : Nat)

theorem plain_primary_group (more : List Token) :
    plain (primary b depth (⟨.openParen, i, j⟩ :: more)) =
      b.enter depth >>= fun deeper => plain (disjunction b deeper more) >>= closeGroup b := by
  rw [primary]
  cases b.enter depth with
  | error fault => rfl
  | ok deeper =>
    change plain (disjunction b deeper more >>= _) = plain (disjunction b deeper more) >>= _
    cases disjunction b deeper more with
    | error fault => rfl
    | ok p =>
      obtain ⟨f, rest, h⟩ := p
      cases rest with
      | nil => rfl
      | cons t left =>
        obtain ⟨kind, k, l⟩ := t
        cases kind <;> rfl

theorem plain_primary_call (name : String) (k l : Nat) (more : List Token) :
    plain (primary b depth (⟨.word name, i, j⟩ :: ⟨.openParen, k, l⟩ :: more)) =
      plain (arguments b more) >>= fun p => .ok (.call name p.1, p.2) := by
  rw [primary]
  cases arguments b more <;> rfl

theorem plain_primary_comparison (name : String) {more : List Token}
    (h : ∀ k l rest, more ≠ ⟨.openParen, k, l⟩ :: rest) :
    plain (primary b depth (⟨.word name, i, j⟩ :: more)) = plain (comparison b name more) := by
  rw [primary]
  · cases comparison b name more <;> rfl
  · exact h

theorem plain_primary_nil :
    plain (primary b depth []) = .error (.malformed b.stop .unexpectedEnd) := by
  rw [primary]
  rfl

theorem plain_primary_of_ne {t : Token} (more : List Token) (hopen : t.kind ≠ .openParen)
    (hword : ∀ name, t.kind ≠ .word name) :
    plain (primary b depth (t :: more)) = .error (.malformed t.start .operandExpected) := by
  rw [primary]
  · rfl
  · rintro k l rfl
    exact hopen rfl
  · rintro name k l i j rest rfl
    exact absurd rfl (hword name)
  · rintro name k l rfl
    exact hword name rfl

theorem plain_argumentsFrom_cons (t : Token) (more : List Token) :
    plain (argumentsFrom b (t :: more)) =
      match t.argument?, more with
      | none, _ => .error (.malformed t.start .literalExpected)
      | some a, ⟨.comma, _, _⟩ :: rest =>
        plain (argumentsFrom b rest) >>= fun p => .ok (a :: p.1, p.2)
      | some a, ⟨.closeParen, _, _⟩ :: rest => .ok ([a], rest)
      | some _, rest => .error (.malformed (b.position rest) .separatorExpected) := by
  rw [argumentsFrom]
  cases t.argument? with
  | none => rfl
  | some a =>
    match more with
    | [] => rfl
    | ⟨kind, k, l⟩ :: rest =>
      cases kind with
      | comma => simp only; cases argumentsFrom b rest <;> rfl
      | _ => rfl


end Equations

variable {b : Bounds} {depth : Nat} {f : Filter} {tokens rest : List Token}

/-- The tokens that a parser leaves are as few as it says. -/
theorem of_plain_eq_ok {α : Type} {P : List Token → Prop} {a : α}
    {x : Except Fault (α × { rest : List Token // P rest })} (h : plain x = .ok (a, rest)) :
    P rest := by
  cases x with
  | error fault => cases h
  | ok p =>
    obtain ⟨a', rest', hrest⟩ := p
    cases h
    exact hrest

theorem enter_eq_ok {deeper : Nat} :
    b.enter depth = .ok deeper ↔ depth + 1 ≤ b.maxDepth ∧ deeper = depth + 1 := by
  unfold Bounds.enter
  split
  · next h => exact ⟨nofun, fun h' => absurd h'.1 (by omega)⟩
  · next h => exact ⟨fun he => ⟨by omega, (Except.ok.inj he).symm⟩, fun h' => by rw [h'.2]⟩

/-- A conjunction ends where no `and` follows. -/
theorem plain_conjuncts_of_head {sofar : Filter} {tail : List Token}
    (h : ∀ t ∈ tail.head?, t.isWord "and" = false) :
    plain (conjuncts b depth sofar tail) = .ok (sofar, tail) := by
  match tail with
  | [] => exact plain_conjuncts_nil b depth sofar
  | t :: more => rw [plain_conjuncts_cons, h t rfl, if_neg Bool.false_ne_true]

/-- A disjunction ends where no `or` follows. -/
theorem plain_disjuncts_of_head {sofar : Filter} {tail : List Token}
    (h : ∀ t ∈ tail.head?, t.isWord "or" = false) :
    plain (disjuncts b depth sofar tail) = .ok (sofar, tail) := by
  match tail with
  | [] => exact plain_disjuncts_nil b depth sofar
  | t :: more => rw [plain_disjuncts_cons, h t rfl, if_neg Bool.false_ne_true]

/-- A whole list of tokens is a disjunction with nothing left. -/
theorem parseTokens_eq_ok :
    parseTokens b tokens = .ok f ↔ plain (disjunction b 0 tokens) = .ok (f, []) := by
  unfold parseTokens
  cases disjunction b 0 tokens with
  | error fault => exact ⟨nofun, nofun⟩
  | ok p =>
    obtain ⟨g, rest, h⟩ := p
    cases rest with
    | nil => exact ⟨fun he => by cases he; rfl, fun he => by cases he; rfl⟩
    | cons t more => exact ⟨nofun, fun he => by cases he⟩

/-- The end of a list of tokens, after which none may be left. -/
def endFilter : Filter × List Token → Except Fault Filter
  | (f, []) => .ok f
  | (_, t :: _) => .error (.malformed t.start .unexpectedToken)

theorem parseTokens_eq (b : Bounds) (tokens : List Token) :
    parseTokens b tokens = plain (disjunction b 0 tokens) >>= endFilter := by
  unfold parseTokens
  cases disjunction b 0 tokens with
  | error fault => rfl
  | ok p =>
    obtain ⟨f, rest, h⟩ := p
    cases rest <;> rfl

end RequestQuery.Filter
