import RequestQuery.Proofs.ClauseTokens
import RequestQuery.Proofs.Truth

/-!
# Reading clauses

How a database reads a clause: NOT binds tighter than AND and AND tighter than OR, whatever stands
in parentheses is one operand, and a test names a column and the slots of the values that it is
tested against:

```
disjunction := conjunction (OR conjunction)*
conjunction := operand (AND operand)*
operand     := NOT operand | '(' disjunction ')' | number '=' number | column test
test        := IS NULL | IS NOT NULL | comparison slot | IN '(' slot (',' slot)* ')'
             | '=' ANY '(' slot ')' | LIKE pattern ESCAPE '\'
pattern     := slot '||' '%' | '%' '||' slot | '%' '||' slot '||' '%'
```

Keywords are read in any case, and a word before an operator is a column. The reader knows nothing
of the trees that a clause was written from.

* `Clause.ofText?`: the clause that a text writes in a dialect.
* `Clause.truth?`: its truth on a row, with the bound values in the place of the slots.
-/

namespace RequestQuery.Sql

/-- What joins two parts of a clause. -/
inductive Connective where
  | and
  | or
  deriving DecidableEq

namespace Connective

/-- The keyword of a connective. -/
def keyword : Connective → String
  | .and => "AND"
  | .or => "OR"

/-- The connective on truth values. -/
def truth : Connective → Truth → Truth → Truth
  | .and => Truth.and
  | .or => Truth.or

end Connective

/-- A clause as it is read. -/
inductive Clause where
  /-- A comparison of numbers. -/
  | constant (b : Bool)
  | isNull (column : String)
  | isNotNull (column : String)
  | compare (column : String) (c : Comparison) (slot : Nat)
  /-- The column equals the value of some slot. -/
  | among (column : String) (slots : List Nat)
  /-- The column equals some element of the list in a slot. -/
  | equalsAny (column : String) (slot : Nat)
  /-- The text of a slot, with its wildcards escaped, occurs in the column. -/
  | like (column : String) (anchor : Anchor) (slot : Nat)
  | not (c : Clause)
  | join (k : Connective) (left right : Clause)
  deriving DecidableEq

/-! ## Tests -/

/-- Fewer tokens than the given ones. -/
abbrev Fewer (tokens : List Token) : Type := { rest : List Token // rest.length < tokens.length }

/-- Fewer tokens than the given ones are fewer than those and one more. -/
def Fewer.cons (t : Token) {tokens : List Token} (rest : Fewer tokens) : Fewer (t :: tokens) :=
  ⟨rest.1, Nat.lt_succ_of_lt rest.2⟩

namespace Token

/-- Whether a token is the given word, in any case. -/
def isWord (word : String) : Token → Bool
  | .word s => Ascii.sameLetters s word
  | _ => false

/-- Whether a token goes on with the test of a column. -/
def isOperator : Token → Bool
  | .comparison _ => true
  | t => t.isWord "IS" || t.isWord "IN" || t.isWord "LIKE"

end Token

namespace Clause

/-- The slots of a list, up to the closing parenthesis. -/
def slots? : (tokens : List Token) → Option (List Nat × Fewer tokens)
  | .slot n :: .closeParen :: rest => some ([n], ⟨rest, by simp only [List.length_cons]; omega⟩)
  | .slot n :: .comma :: rest =>
    (slots? rest).map fun (ns, left) => (n :: ns, (left.cons _).cons _)
  | _ => none

/-- A pattern: where in the column the text of which slot must occur. -/
def pattern? : (tokens : List Token) → Option ((Anchor × Nat) × Fewer tokens)
  | .slot n :: .concat :: .quoted ['%'] :: rest =>
    some ((.atStart, n), ⟨rest, by simp only [List.length_cons]; omega⟩)
  | .quoted ['%'] :: .concat :: .slot n :: .concat :: .quoted ['%'] :: rest =>
    some ((.anywhere, n), ⟨rest, by simp only [List.length_cons]; omega⟩)
  | .quoted ['%'] :: .concat :: .slot n :: rest =>
    some ((.atEnd, n), ⟨rest, by simp only [List.length_cons]; omega⟩)
  | _ => none

/-- The end of a pattern: backslash is its escape character. -/
def escape? : (tokens : List Token) → Option (Fewer tokens)
  | t :: .quoted ['\\'] :: rest =>
    if t.isWord "ESCAPE" then some ⟨rest, by simp only [List.length_cons]; omega⟩ else none
  | _ => none

/-- What is tested after the word IS. -/
def nullTest? (column : String) : (tokens : List Token) → Option (Clause × Fewer tokens)
  | t :: rest =>
    if t.isWord "NULL" then some (.isNull column, ⟨rest, Nat.lt_succ_self _⟩)
    else if t.isWord "NOT" then
      match rest with
      | u :: rest =>
        if u.isWord "NULL" then
          some (.isNotNull column, ⟨rest, by simp only [List.length_cons]; omega⟩)
        else none
      | [] => none
    else none
  | [] => none

/-- The test that follows a column. -/
def test? (column : String) : (tokens : List Token) → Option (Clause × Fewer tokens)
  | .comparison c :: .slot n :: rest =>
    some (.compare column c n, ⟨rest, by simp only [List.length_cons]; omega⟩)
  | .comparison .eq :: t :: .openParen :: .slot n :: .closeParen :: rest =>
    if t.isWord "ANY" then
      some (.equalsAny column n, ⟨rest, by simp only [List.length_cons]; omega⟩)
    else none
  | t :: rest =>
    if t.isWord "IS" then (nullTest? column rest).map fun (c, left) => (c, left.cons t)
    else if t.isWord "IN" then
      match rest with
      | .openParen :: rest =>
        (slots? rest).map fun (ns, left) => (.among column ns, (left.cons _).cons t)
      | _ => none
    else if t.isWord "LIKE" then do
      let ((anchor, n), ⟨rest, _⟩) ← pattern? rest
      let ⟨left, _⟩ ← escape? rest
      return (.like column anchor n, ⟨left, by simp only [List.length_cons]; omega⟩)
    else none
  | [] => none

/-! ## Expressions -/

/-- Whether tokens go on with the test of a column. -/
def beginsTest : List Token → Bool
  | t :: _ => t.isOperator
  | [] => false

/-- How weakly a connective binds. -/
@[simp] def weakness : Connective → Nat
  | .and => 0
  | .or => 1

mutual

/-- Parts joined by a connective. -/
def chain? (k : Connective) (tokens : List Token) : Option (Clause × Fewer tokens) := do
  let (left, ⟨rest, fewer⟩) ← part? k tokens
  match rest, fewer with
  | t :: more, fewer =>
    if t.isWord k.keyword then do
      have : more.length < tokens.length := Nat.lt_of_succ_lt fewer
      let (right, ⟨rest, _⟩) ← chain? k more
      return (.join k left right, ⟨rest, by simp only [List.length_cons] at *; omega⟩)
    else return (left, ⟨t :: more, fewer⟩)
  | [], fewer => return (left, ⟨[], fewer⟩)
  termination_by (tokens.length, 2 * weakness k + 2)

/-- A part of a chain: what binds tighter than its connective. -/
def part? (k : Connective) (tokens : List Token) : Option (Clause × Fewer tokens) :=
  match k with
  | .or => chain? .and tokens
  | .and => operand? tokens
  termination_by (tokens.length, 2 * weakness k + 1)

/-- A negation, a chain in parentheses, a comparison of numbers or the test of a column. -/
def operand? (tokens : List Token) : Option (Clause × Fewer tokens) :=
  match tokens with
  | .openParen :: more => do
    let (c, ⟨rest, fewer⟩) ← chain? .or more
    match rest, fewer with
    | .closeParen :: left, _ => return (c, ⟨left, by simp only [List.length_cons] at *; omega⟩)
    | _, _ => none
  | .number m :: .comparison .eq :: .number n :: rest =>
    some (.constant (m == n), ⟨rest, by simp only [List.length_cons]; omega⟩)
  | .word s :: more =>
    if Ascii.sameLetters s "NOT" && !beginsTest more then
      (operand? more).map fun (c, rest) => (.not c, rest.cons _)
    else (test? s more).map fun (c, rest) => (c, rest.cons _)
  | _ => none
  termination_by (tokens.length, 0)

end

/-- The clause that a text writes; without text every row is wanted. -/
def ofText? (d : Dialect) (text : String) : Option Clause := do
  match ← Token.scan? d text.toList with
  | [] => return .constant true
  | t :: more =>
    if t.isWord "WHERE" then
      let (c, ⟨rest, _⟩) ← chain? .or more
      if rest.isEmpty then return c else none
    else none

/-! ## Truth -/

/-- The value bound to a slot; slots are counted from one. -/
def bound? (params : List Value) : Nat → Option Value
  | 0 => none
  | n + 1 => params[n]?

/-- The only text that matches a pattern, where backslash is the escape character; none when the
pattern has a wildcard. -/
def literal? : List Char → Option (List Char)
  | [] => some []
  | '\\' :: c :: cs => (literal? cs).map (c :: ·)
  | '\\' :: [] => none
  | c :: cs => if c = '%' ∨ c = '_' then none else (literal? cs).map (c :: ·)

/-- The value that a pattern is made of. -/
def patternValue? : Value → Option Value
  | .text s => (literal? s.toList).map fun cs => .text (String.ofList cs)
  | v => some v

/-- The truth of a clause on a row, with the bound values in the place of the slots. -/
def truth? (row : RowReading) (params : List Value) : Clause → Option Truth
  | .constant b => some (.ofBool b)
  | .isNull column => some (.ofBool (row.isNull column))
  | .isNotNull column => some (.ofBool (!row.isNull column))
  | .compare column c n => (bound? params n).map (row.compare column c)
  | .among column ns =>
    (ns.mapM (bound? params)).map fun vs => .any (vs.map (row.compare column .eq))
  | .equalsAny column n =>
    match bound? params n with
    | some (.list vs) => some (.any (vs.map (row.compare column .eq)))
    | _ => none
  | .like column anchor n =>
    ((bound? params n).bind patternValue?).map (row.occurs column anchor)
  | .not c => (truth? row params c).map .not
  | .join k left right => do return k.truth (← truth? row params left) (← truth? row params right)

/-! ## Steps of the reader -/

/-- What a reader gives: its result and the tokens left, without the proof that they are fewer. -/
def plain {α : Type} {tokens : List Token} :
    Option (α × Fewer tokens) → Option (α × List Token) :=
  Option.map fun p => (p.1, p.2.1)

theorem exists_of_plain {α : Type} {tokens rest : List Token} {a : α}
    {x : Option (α × Fewer tokens)} (h : plain x = some (a, rest)) :
    ∃ fewer, x = some (a, ⟨rest, fewer⟩) := by
  obtain ⟨⟨a, rest, fewer⟩, rfl, he⟩ := Option.map_eq_some_iff.1 h
  cases he
  exact ⟨fewer, rfl⟩

section Steps

variable {k : Connective} {t : Token} {tokens more rest : List Token} {c c' : Clause} {s : String}

/-- A chain ends where its connective does not follow. -/
theorem plain_chain?_end (h : plain (part? k tokens) = some (c, rest))
    (hend : ∀ t ∈ rest.head?, t.isWord k.keyword = false) :
    plain (chain? k tokens) = some (c, rest) := by
  obtain ⟨fewer, hpart⟩ := exists_of_plain h
  rw [chain?.eq_def, hpart]
  match rest, fewer with
  | [], fewer => rfl
  | t :: more, fewer =>
    change plain (if t.isWord k.keyword = true then _ else _) = _
    rw [hend t rfl, if_neg Bool.false_ne_true]
    rfl

/-- A chain goes on after its connective. -/
theorem plain_chain?_join (h : plain (part? k tokens) = some (c, t :: more))
    (ht : t.isWord k.keyword = true) (hmore : plain (chain? k more) = some (c', rest)) :
    plain (chain? k tokens) = some (.join k c c', rest) := by
  obtain ⟨fewer, hpart⟩ := exists_of_plain h
  obtain ⟨fewer', hchain⟩ := exists_of_plain hmore
  rw [chain?.eq_def, hpart]
  change plain (if t.isWord k.keyword = true then _ else _) = _
  rw [if_pos ht, hchain]
  rfl

theorem part?_and (tokens : List Token) : part? .and tokens = operand? tokens := by
  rw [part?]

theorem part?_or (tokens : List Token) : part? .or tokens = chain? .and tokens := by
  rw [part?]

theorem plain_operand?_parens (h : plain (chain? .or more) = some (c, .closeParen :: rest)) :
    plain (operand? (.openParen :: more)) = some (c, rest) := by
  obtain ⟨fewer, hchain⟩ := exists_of_plain h
  rw [operand?, hchain]
  rfl

theorem plain_operand?_numbers (m n : Nat) (rest : List Token) :
    plain (operand? (.number m :: .comparison .eq :: .number n :: rest)) =
      some (.constant (m == n), rest) := by
  rw [operand?]
  rfl

/-- The word NOT is a negation unless a test goes on after it. -/
theorem plain_operand?_not (hmore : beginsTest more = false)
    (h : plain (operand? more) = some (c, rest)) :
    plain (operand? (.word "NOT" :: more)) = some (.not c, rest) := by
  obtain ⟨fewer, hoperand⟩ := exists_of_plain h
  rw [operand?, hmore, if_pos (by decide), hoperand]
  rfl

/-- Any word is a column when a test goes on after it. -/
theorem plain_operand?_test (hmore : beginsTest more = true)
    (h : plain (test? s more) = some (c, rest)) :
    plain (operand? (.word s :: more)) = some (c, rest) := by
  obtain ⟨fewer, htest⟩ := exists_of_plain h
  rw [operand?, hmore, Bool.not_true, Bool.and_false, if_neg Bool.false_ne_true, htest]
  rfl

end Steps

/-- AND binds tighter than OR, NOT tighter than AND, and a word before an operator is a column. -/
example : Clause.ofText? .postgres "WHERE a=$1 or NOT not=$2 AND b=$3" =
    some (.join .or (.compare "a" .eq 1)
      (.join .and (.not (.compare "not" .eq 2)) (.compare "b" .eq 3))) := by cbv

end Clause

end RequestQuery.Sql
