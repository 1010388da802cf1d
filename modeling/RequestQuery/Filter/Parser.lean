import RequestQuery.Filter.Token

/-!
# Parsing filters

The grammar of filters, where `or` binds weaker than `and`, `and` weaker than `not`, and both
connectives group to the left:

```
disjunction := conjunction ('or' conjunction)*
conjunction := operand ('and' operand)*
operand     := 'not' operand | primary
primary     := '(' disjunction ')' | word '(' arguments ')' | word operator literal
```

Keywords, operators and literal words are matched in any case. The word `not` before an operator is
a column. Parentheses and negations may nest to a given depth.

Each parser takes the tokens it may read and returns those it leaves, with a proof that they are
fewer, which is why parsing ends.

* `Filter.parse`: the filter that a text writes.
-/

namespace RequestQuery.Filter

/-- What every parser knows: the depth that may not be exceeded and the position of the end. -/
structure Bounds where
  maxDepth : Nat
  stop : Nat

/-- Fewer tokens than the given ones. -/
abbrev Fewer (tokens : List Token) : Type := { rest : List Token // rest.length < tokens.length }

/-- The position of the next token, or of the end. -/
def Bounds.position (b : Bounds) : List Token → Nat
  | token :: _ => token.start
  | [] => b.stop

/-- Go one level deeper. -/
def Bounds.enter (b : Bounds) (depth : Nat) : Except Fault Nat :=
  if b.maxDepth < depth + 1 then .error (.tooDeep b.maxDepth (depth + 1)) else .ok (depth + 1)

/-- Whether a token is the given word, in any case. -/
def Token.isWord (word : String) (t : Token) : Bool :=
  match t.kind with
  | .word s => Ascii.sameLetters s word
  | _ => false

/-- Whether a token is a comparison operator. -/
def Token.isOperator (t : Token) : Bool :=
  match t.kind with
  | .word s => (Comparison.ofWord? s).isSome
  | _ => false

/-! ## Literals and arguments -/

/-- The literal that a token writes. -/
def Token.literal? (t : Token) : Option Literal :=
  match t.kind with
  | .text s => some (.text s)
  | .int n => some (.int n)
  | .decimal x => some (.decimal x)
  | .word s =>
    if Ascii.sameLetters s "true" then some (.bool true)
    else if Ascii.sameLetters s "false" then some (.bool false)
    else if Ascii.sameLetters s "null" then some .null
    else none
  | _ => none

/-- The argument that a token writes: a literal, or a column for any other word. -/
def Token.argument? (t : Token) : Option Argument :=
  match t.literal?, t.kind with
  | some l, _ => some (.literal l)
  | none, .word s => some (.column s)
  | none, _ => none

/-- One argument or more, up to the closing parenthesis. -/
def argumentsFrom (b : Bounds) : (tokens : List Token) →
    Except Fault (List Argument × Fewer tokens)
  | [] => .error (.malformed b.stop .literalExpected)
  | token :: rest =>
    match token.argument? with
    | none => .error (.malformed token.start .literalExpected)
    | some argument =>
      match rest with
      | ⟨.comma, _, _⟩ :: more => do
        let (arguments, ⟨left, fewer⟩) ← argumentsFrom b more
        return (argument :: arguments, ⟨left, by simp only [List.length_cons]; omega⟩)
      | ⟨.closeParen, _, _⟩ :: more =>
        .ok ([argument], ⟨more, by simp only [List.length_cons]; omega⟩)
      | _ => .error (.malformed (b.position rest) .separatorExpected)

/-- The arguments of a call after its opening parenthesis. -/
def arguments (b : Bounds) : (tokens : List Token) → Except Fault (List Argument × Fewer tokens)
  | ⟨.closeParen, _, _⟩ :: rest => .ok ([], ⟨rest, Nat.lt_succ_self _⟩)
  | tokens => argumentsFrom b tokens

/-- The operator and the literal of a comparison. -/
def comparison (b : Bounds) (column : String) : (tokens : List Token) →
    Except Fault (Filter × Fewer tokens)
  | ⟨.word word, _, _⟩ :: rest =>
    match Comparison.ofWord? word with
    | none => .error (.unsupportedOperator word)
    | some op =>
      match rest with
      | [] => .error (.malformed b.stop .literalExpected)
      | token :: more =>
        match token.literal? with
        | none => .error (.malformed token.start .literalExpected)
        | some l => .ok (.compare column op l, ⟨more, by simp only [List.length_cons]; omega⟩)
  | tokens => .error (.malformed (b.position tokens) .operatorExpected)

/-! ## Expressions -/

/-- Whether tokens begin with a negation: the word `not`, unless an operator follows. -/
def startsNegation : List Token → Bool
  | token :: next :: _ => token.isWord "not" && !next.isOperator
  | [token] => token.isWord "not"
  | [] => false

mutual

/-- Conjunctions joined by `or`. -/
def disjunction (b : Bounds) (depth : Nat) (tokens : List Token) :
    Except Fault (Filter × Fewer tokens) := do
  let (first, ⟨rest, _⟩) ← conjunction b depth tokens
  let (whole, ⟨left, _⟩) ← disjuncts b depth first rest
  return (whole, ⟨left, by omega⟩)
  termination_by (tokens.length, 3)

/-- The conjunctions that follow a first one. -/
def disjuncts (b : Bounds) (depth : Nat) (sofar : Filter) (tokens : List Token) :
    Except Fault (Filter × { rest : List Token // rest.length ≤ tokens.length }) :=
  match tokens with
  | token :: more =>
    if token.isWord "or" then do
      let (next, ⟨rest, _⟩) ← conjunction b depth more
      let (whole, ⟨left, _⟩) ← disjuncts b depth (.or sofar next) rest
      return (whole, ⟨left, by simp only [List.length_cons]; omega⟩)
    else .ok (sofar, ⟨token :: more, Nat.le_refl _⟩)
  | [] => .ok (sofar, ⟨[], Nat.le_refl _⟩)
  termination_by (tokens.length, 0)

/-- Operands joined by `and`. -/
def conjunction (b : Bounds) (depth : Nat) (tokens : List Token) :
    Except Fault (Filter × Fewer tokens) := do
  let (first, ⟨rest, _⟩) ← operand b depth tokens
  let (whole, ⟨left, _⟩) ← conjuncts b depth first rest
  return (whole, ⟨left, by omega⟩)
  termination_by (tokens.length, 2)

/-- The operands that follow a first one. -/
def conjuncts (b : Bounds) (depth : Nat) (sofar : Filter) (tokens : List Token) :
    Except Fault (Filter × { rest : List Token // rest.length ≤ tokens.length }) :=
  match tokens with
  | token :: more =>
    if token.isWord "and" then do
      let (next, ⟨rest, _⟩) ← operand b depth more
      let (whole, ⟨left, _⟩) ← conjuncts b depth (.and sofar next) rest
      return (whole, ⟨left, by simp only [List.length_cons]; omega⟩)
    else .ok (sofar, ⟨token :: more, Nat.le_refl _⟩)
  | [] => .ok (sofar, ⟨[], Nat.le_refl _⟩)
  termination_by (tokens.length, 0)

/-- A negation or a primary. -/
def operand (b : Bounds) (depth : Nat) (tokens : List Token) :
    Except Fault (Filter × Fewer tokens) :=
  match tokens with
  | token :: more =>
    if startsNegation (token :: more) then do
      let deeper ← b.enter depth
      let (inner, ⟨left, _⟩) ← operand b deeper more
      return (.not inner, ⟨left, by simp only [List.length_cons]; omega⟩)
    else primary b depth (token :: more)
  | [] => primary b depth []
  termination_by (tokens.length, 1)

/-- A parenthesised filter, a call or a comparison. -/
def primary (b : Bounds) (depth : Nat) (tokens : List Token) :
    Except Fault (Filter × Fewer tokens) :=
  match tokens with
  | ⟨.openParen, _, _⟩ :: more => do
    let deeper ← b.enter depth
    let (inner, ⟨rest, fewer⟩) ← disjunction b deeper more
    match rest, fewer with
    | ⟨.closeParen, _, _⟩ :: left, fewer =>
      return (inner, ⟨left, by simp only [List.length_cons] at *; omega⟩)
    | rest, _ => .error (.malformed (b.position rest) .closeExpected)
  | ⟨.word name, _, _⟩ :: ⟨.openParen, _, _⟩ :: more => do
    let (args, ⟨left, _⟩) ← arguments b more
    return (.call name args, ⟨left, by simp only [List.length_cons]; omega⟩)
  | ⟨.word name, _, _⟩ :: more => do
    let (test, ⟨left, _⟩) ← comparison b name more
    return (test, ⟨left, by simp only [List.length_cons]; omega⟩)
  | token :: _ => .error (.malformed token.start .operandExpected)
  | [] => .error (.malformed b.stop .unexpectedEnd)
  termination_by (tokens.length, 0)

end

/-- The filter that a whole list of tokens writes. -/
def parseTokens (b : Bounds) (tokens : List Token) : Except Fault Filter := do
  let (filter, ⟨rest, _⟩) ← disjunction b 0 tokens
  match rest with
  | [] => return filter
  | token :: _ => .error (.malformed token.start .unexpectedToken)

/-- The filter that a text writes, with nesting of parentheses and negations bounded. -/
def parse (maxDepth : Nat) (source : String) : Except Fault Filter := do
  let tokens ← Token.scan source
  parseTokens ⟨maxDepth, Utf8.width source⟩ tokens

end RequestQuery.Filter
