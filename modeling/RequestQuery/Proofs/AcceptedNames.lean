import RequestQuery.Plan
import RequestQuery.Proofs.Fallible

/-!
# Names that queries accept

A query takes a name when it is an identifier, and then every step of building it succeeds; a
predicate is a condition exactly when the columns that it tests are identifiers
(`Predicate.exists_condition_iff`).
-/

namespace RequestQuery

open Fallible

namespace Sql

/-- A name that is accepted is an identifier. -/
theorem valid_of_nameFor {role : Role} {name : String} {i : Identifier}
    (h : nameFor role name = .ok i) : Identifier.flaw? name = none :=
  text_of_nameFor h ▸ i.valid

theorem exists_nameFor {name : String} (h : Identifier.flaw? name = none) (role : Role) :
    ∃ i, nameFor role name = .ok i := by
  obtain ⟨i, hi⟩ : ∃ i, Identifier.ofString? name = .ok i :=
    ⟨⟨name, h⟩, Identifier.ofString?_eq_ok_iff.2 rfl⟩
  exact ⟨i, mapError_eq_ok.2 hi⟩

namespace Query

theorem exists_ofTable {table : String} (h : Identifier.flaw? table = none) (d : Dialect) :
    ∃ q, ofTable d table = .ok q := by
  obtain ⟨i, hi⟩ := exists_nameFor h .table
  exact ⟨_, bind_eq_ok.2 ⟨i, hi, rfl⟩⟩

theorem exists_fields {columns : List String}
    (h : ∀ column ∈ columns, Identifier.flaw? column = none) (q : Query) :
    ∃ q', q.fields columns = .ok q' := by
  obtain ⟨is, his⟩ := exists_mapM_eq_ok fun column hc => exists_nameFor (h column hc) .field
  exact ⟨_, bind_eq_ok.2 ⟨is, his, rfl⟩⟩

theorem exists_filter {column : String} (h : Identifier.flaw? column = none) (q : Query)
    (op : Operator) (value : Value) : ∃ q', q.filter column op value = .ok q' := by
  obtain ⟨i, hi⟩ := exists_nameFor h .filterColumn
  exact ⟨_, bind_eq_ok.2 ⟨⟨i, op, value⟩, bind_eq_ok.2 ⟨i, hi, rfl⟩, rfl⟩⟩

theorem exists_sort {column : String} (h : Identifier.flaw? column = none) (q : Query)
    (direction : Direction) : ∃ q', q.sort column direction = .ok q' := by
  obtain ⟨i, hi⟩ := exists_nameFor h .sortField
  exact ⟨_, bind_eq_ok.2 ⟨i, hi, rfl⟩⟩

end Query

end Sql

namespace Predicate

/-- A test of a column is an atom with the column as its identifier. -/
theorem atom_eq_ok {column : String} {op : Sql.Operator} {value : Value} {c : Sql.Condition} :
    atom column op value = .ok c ↔
      ∃ i, Sql.nameFor .filterColumn column = .ok i ∧ c = .atom ⟨i, op, value⟩ := by
  unfold atom Sql.Atom.ofName
  simp only [bind_eq_ok, pure_eq_ok, eq_comm (a := c)]
  constructor
  · rintro ⟨_, ⟨i, hi, rfl⟩, rfl⟩
    exact ⟨i, hi, rfl⟩
  · rintro ⟨i, hi, rfl⟩
    exact ⟨_, ⟨i, hi, rfl⟩, rfl⟩

theorem exists_atom_iff {column : String} {op : Sql.Operator} {value : Value} :
    (∃ c, atom column op value = .ok c) ↔ Sql.Identifier.flaw? column = none := by
  constructor
  · rintro ⟨c, hc⟩
    obtain ⟨i, hi, -⟩ := atom_eq_ok.1 hc
    exact Sql.valid_of_nameFor hi
  · intro h
    obtain ⟨i, hi⟩ := Sql.exists_nameFor h .filterColumn
    exact ⟨_, atom_eq_ok.2 ⟨i, hi, rfl⟩⟩

/-! ## Connectives -/

theorem condition_and_eq_ok {left right : Predicate} {c : Sql.Condition} :
    (and left right).condition = .ok c ↔ ∃ l r, left.condition = .ok l ∧
      right.condition = .ok r ∧ c = .all (conjuncts l ++ conjuncts r) := by
  rw [condition]
  simp only [bind_eq_ok, pure_eq_ok, eq_comm (a := c), exists_and_left]

theorem condition_or_eq_ok {left right : Predicate} {c : Sql.Condition} :
    (or left right).condition = .ok c ↔ ∃ l r, left.condition = .ok l ∧
      right.condition = .ok r ∧ c = .any (disjuncts l ++ disjuncts r) := by
  rw [condition]
  simp only [bind_eq_ok, pure_eq_ok, eq_comm (a := c), exists_and_left]

theorem condition_not_eq_ok {inner : Predicate} {c : Sql.Condition} :
    (not inner).condition = .ok c ↔ ∃ part, inner.condition = .ok part ∧ c = .not part := by
  rw [condition]
  simp only [bind_eq_ok, pure_eq_ok, eq_comm (a := c)]

/-- **A predicate is a condition exactly when the columns that it tests are identifiers.** -/
theorem exists_condition_iff {p : Predicate} : (∃ c, p.condition = .ok c) ↔
    ∀ column ∈ p.tested, Sql.Identifier.flaw? column = none := by
  induction p with
  | compare column op value =>
    rw [tested, List.forall_mem_singleton]
    exact exists_atom_iff
  | isNull column negated =>
    rw [tested, List.forall_mem_singleton]
    exact exists_atom_iff
  | like column anchor text =>
    rw [tested, List.forall_mem_singleton]
    exact exists_atom_iff
  | and left right ihl ihr =>
    rw [tested, List.forall_mem_append, ← ihl, ← ihr]
    constructor
    · rintro ⟨c, hc⟩
      obtain ⟨l, r, hl, hr, -⟩ := condition_and_eq_ok.1 hc
      exact ⟨⟨l, hl⟩, ⟨r, hr⟩⟩
    · rintro ⟨⟨l, hl⟩, ⟨r, hr⟩⟩
      exact ⟨_, condition_and_eq_ok.2 ⟨l, r, hl, hr, rfl⟩⟩
  | or left right ihl ihr =>
    rw [tested, List.forall_mem_append, ← ihl, ← ihr]
    constructor
    · rintro ⟨c, hc⟩
      obtain ⟨l, r, hl, hr, -⟩ := condition_or_eq_ok.1 hc
      exact ⟨⟨l, hl⟩, ⟨r, hr⟩⟩
    · rintro ⟨⟨l, hl⟩, ⟨r, hr⟩⟩
      exact ⟨_, condition_or_eq_ok.2 ⟨l, r, hl, hr, rfl⟩⟩
  | not inner ih =>
    rw [tested, ← ih]
    constructor
    · rintro ⟨c, hc⟩
      obtain ⟨part, hpart, -⟩ := condition_not_eq_ok.1 hc
      exact ⟨part, hpart⟩
    · rintro ⟨part, hpart⟩
      exact ⟨_, condition_not_eq_ok.2 ⟨part, hpart, rfl⟩⟩

end Predicate

end RequestQuery
