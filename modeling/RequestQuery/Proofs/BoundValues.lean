import RequestQuery.Sql.Query

/-!
# Bound values

The values of a condition do not depend on how its placeholders are numbered: they are those of its
atoms, from left to right (`Condition.params_fragment`). So the values of a query are those of its
parts, one after the other (`Query.params_condition`).
-/

namespace RequestQuery.Sql

/-- The values that a test binds: none for a null test, each element or one list for membership, and
the escaped text of a pattern. -/
def Atom.bound (d : Dialect) (a : Atom) : List Value :=
  match a.op, a.value with
  | .compare .eq, .null => []
  | .compare .ne, .null => []
  | .compare _, v => [v]
  | .member, v =>
    match listed v, d with
    | [], _ => []
    | values, .postgres => [.list values]
    | values, .sqlite => values
  | .pattern _, v => [escapePattern v]

namespace Condition

mutual

/-- The values that a condition binds, from left to right. -/
def bound (d : Dialect) : Condition → List Value
  | .atom a => a.bound d
  | .all parts => boundBy d parts
  | .any parts => boundBy d parts
  | .not part => bound d part

/-- The values that a list of conditions binds, from left to right. -/
def boundBy (d : Dialect) : List Condition → List Value
  | [] => []
  | part :: rest => bound d part ++ boundBy d rest

end

@[simp] theorem boundBy_append (d : Dialect) (cs ds : List Condition) :
    boundBy d (cs ++ ds) = boundBy d cs ++ boundBy d ds := by
  induction cs with
  | nil => rfl
  | cons c cs ih => rw [List.cons_append, boundBy, ih, boundBy, List.append_assoc]

end Condition

theorem Atom.params_fragment (d : Dialect) (next : Nat) (a : Atom) :
    (a.fragment d next).params = a.bound d := by
  obtain ⟨column, op, value⟩ := a
  cases op with
  | compare c => cases c <;> cases value <;> rfl
  | member =>
    rw [fragment, bound]
    simp only
    cases listed value with
    | nil => rfl
    | cons v values => cases d <;> rfl
  | pattern p => rfl

theorem params_group (separator : Lexeme) (empty : Bool) (fragments : List Fragment) :
    (group separator empty fragments).params = fragments.flatMap (·.params) := by
  match fragments with
  | [] => rfl
  | [only] => exact (List.append_nil _).symm
  | _ :: _ :: _ => rfl

mutual

/-- **The values of a condition do not depend on the numbers of its placeholders.** -/
theorem Condition.params_fragment (d : Dialect) (next : Nat) :
    (c : Condition) → (c.fragment d next).params = c.bound d
  | .atom a => a.params_fragment d next
  | .all parts => by
    rw [fragment, params_group, flatMap_params_fragments d next parts, bound]
  | .any parts => by
    rw [fragment, params_group, flatMap_params_fragments d next parts, bound]
  | .not part => part.params_fragment d next

theorem Condition.flatMap_params_fragments (d : Dialect) (next : Nat) : (cs : List Condition) →
    (Condition.fragments d next cs).flatMap (·.params) = Condition.boundBy d cs
  | [] => rfl
  | part :: rest => by
    rw [fragments, List.flatMap_cons, part.params_fragment d next,
      flatMap_params_fragments d _ rest, boundBy]

end

/-- The values of a query are those of its parts. -/
theorem Query.params_condition (q : Query) :
    q.condition.params = Condition.boundBy q.dialect q.parts :=
  Condition.flatMap_params_fragments q.dialect 1 q.parts

end RequestQuery.Sql
