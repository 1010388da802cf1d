import RequestQuery.Proofs.FilterMeaning

/-!
# The leftmost fault of a filter

A filter passes its check when each of its leaves does, and the leaves are checked from left to
right, so a filter that is refused is refused for the leftmost leaf that offends, wherever that
stands in the tree. What a leaf may be refused for is told without the check (`Leaf.Offends`), with
the first of several reasons where a leaf gives more than one.

* `Leaf.check_eq_error_iff`, `Leaf.exists_check_eq_ok_iff`: when a leaf by itself is refused, and
  for what.
* `refusal_check`: what a filter is refused for is what the first of its leaves is refused for.
* `columns_of_check`, `compared_of_check`: the columns and the values of a predicate.
* `check_leftmost`: what the check of a filter accepts, refuses and gives.
-/

namespace RequestQuery

open Fallible

/-- The comparisons that put values in an order. -/
def Comparison.IsOrdering (op : Comparison) : Prop := op = .lt ∨ op = .le ∨ op = .gt ∨ op = .ge

/-- The name of a filter function, in any case. -/
def Anchor.IsFunction (name : String) : Prop :=
  ∃ a : Anchor, Ascii.sameLetters name a.function = true

theorem Anchor.exists_ofFunction?_iff {name : String} :
    (∃ a, Anchor.ofFunction? name = some a) ↔ IsFunction name := by
  unfold ofFunction? IsFunction
  rw [← Option.isSome_iff_exists, List.find?_isSome]
  constructor
  · rintro ⟨a, -, ha⟩
    exact ⟨a, ha⟩
  · rintro ⟨a, ha⟩
    refine ⟨a, ?_, ha⟩
    cases a <;> decide

/-- The values of the comparisons, from left to right. -/
def Predicate.compared : Predicate → List Value
  | .compare _ _ value => [value]
  | .isNull _ _ => []
  | .like _ _ _ => []
  | .and left right => left.compared ++ right.compared
  | .or left right => left.compared ++ right.compared
  | .not inner => inner.compared

/-- A single value that is there. -/
def Value.IsPlain (v : Value) : Prop := v ≠ .null ∧ ∀ items, v ≠ .list items

/-- A literal other than null is a single value. -/
theorem Literal.isPlain_value {l : Literal} (h : l ≠ .null) : l.value.IsPlain := by
  cases l with
  | null => exact absurd rfl h
  | text s => exact ⟨nofun, nofun⟩
  | int n => exact ⟨nofun, nofun⟩
  | decimal x => exact ⟨nofun, nofun⟩
  | bool b => exact ⟨nofun, nofun⟩

namespace Filter

/-! ## Leaves -/

/-- A leaf of a filter. -/
inductive Leaf where
  | compare (column : String) (op : Comparison) (literal : Literal)
  | call (function : String) (args : List Argument)

/-- The leaves of a filter, from left to right. -/
def leaves : Filter → List Leaf
  | .compare column op literal => [.compare column op literal]
  | .call function args => [.call function args]
  | .and left right => left.leaves ++ right.leaves
  | .or left right => left.leaves ++ right.leaves
  | .not inner => inner.leaves

namespace Leaf

/-- The columns that a leaf names. -/
def columns : Leaf → List String
  | compare column _ _ => [column]
  | call _ args => args.filterMap fun
    | .column column => some column
    | .literal _ => none

/-- A leaf that may stand in a filter on a resource: it names columns that a request may name, it
does not order null, and it calls a known function with a column and a text. -/
def WellFormed (r : Resource) : Leaf → Prop
  | compare column op literal =>
    r.isAllowedColumn column = true ∧ ¬ (op.IsOrdering ∧ literal = .null)
  | call function args => Anchor.IsFunction function ∧ ∃ column text,
    args = [.column column, .literal (.text text)] ∧ r.isAllowedColumn column = true

/-- What a leaf that may not stand in a filter is refused for. -/
inductive Offends (r : Resource) : Leaf → Fault → Prop
  | comparedColumn {column : String} {op : Comparison} {literal : Literal}
    (hcolumn : ¬ r.isAllowedColumn column = true) :
      Offends r (.compare column op literal) (.unknownColumn column)
  | ordersNull {column : String} {op : Comparison} (hcolumn : r.isAllowedColumn column = true)
    (hop : op.IsOrdering) : Offends r (.compare column op .null) (.unsupportedOperator op.word)
  | unknownFunction {function : String} {args : List Argument}
    (hfunction : ¬ Anchor.IsFunction function) :
      Offends r (.call function args) (.unsupportedCall function .unknownFunction)
  | badArguments {function : String} {args : List Argument} (hfunction : Anchor.IsFunction function)
    (hargs : ∀ column text, args ≠ [.column column, .literal (.text text)]) :
      Offends r (.call function args) (.unsupportedCall function .badArguments)
  | matchedColumn {function column text : String} (hfunction : Anchor.IsFunction function)
    (hcolumn : ¬ r.isAllowedColumn column = true) :
      Offends r (.call function [.column column, .literal (.text text)]) (.unknownColumn column)

/-- The check of a leaf by itself. -/
def check (r : Resource) : Leaf → Except Fault Predicate
  | compare column op literal => checkCompare r column op literal
  | call function args => checkCall r function args

variable {r : Resource}

theorem exists_checkCompare_eq_ok_iff {column : String} {op : Comparison} {literal : Literal} :
    (∃ p, checkCompare r column op literal = .ok p) ↔
      (compare column op literal).WellFormed r := by
  simp only [checkCompare_eq_ok, exists_and_left, WellFormed]
  refine and_congr_right fun _ => ?_
  cases literal <;> cases op <;> simp [Comparison.IsOrdering]

theorem exists_checkCall_eq_ok_iff {function : String} {args : List Argument} :
    (∃ p, checkCall r function args = .ok p) ↔ (call function args).WellFormed r := by
  simp only [checkCall_eq_ok, WellFormed, ← Anchor.exists_ofFunction?_iff]
  constructor
  · rintro ⟨_, anchor, column, text, hfunction, hargs, hcolumn, -⟩
    exact ⟨⟨anchor, hfunction⟩, column, text, hargs, hcolumn⟩
  · rintro ⟨⟨anchor, hfunction⟩, column, text, hargs, hcolumn⟩
    exact ⟨_, anchor, column, text, hfunction, hargs, hcolumn, rfl⟩

/-- **A leaf passes its check when it is well formed.** -/
theorem exists_check_eq_ok_iff {l : Leaf} : (∃ p, l.check r = .ok p) ↔ l.WellFormed r := by
  cases l with
  | compare column op literal => exact exists_checkCompare_eq_ok_iff
  | call function args => exact exists_checkCall_eq_ok_iff

theorem checkCompare_eq_error_iff {column : String} {op : Comparison} {literal : Literal}
    {fault : Fault} : checkCompare r column op literal = .error fault ↔
      (compare column op literal).Offends r fault := by
  constructor
  · intro h
    by_cases hcolumn : r.isAllowedColumn column = true
    · simp only [checkCompare, checkColumn_eq_ok.2 hcolumn] at h
      cases literal <;> cases op <;> cases h <;>
        exact .ordersNull hcolumn (by simp [Comparison.IsOrdering])
    · simp only [checkCompare, checkColumn, if_neg hcolumn] at h
      cases h
      exact .comparedColumn hcolumn
  · intro h
    cases h with
    | comparedColumn hcolumn =>
      simp only [checkCompare, checkColumn, if_neg hcolumn]
      rfl
    | ordersNull hcolumn hop =>
      simp only [checkCompare, checkColumn_eq_ok.2 hcolumn]
      rcases hop with rfl | rfl | rfl | rfl <;> rfl

theorem checkCall_eq_error_iff {function : String} {args : List Argument} {fault : Fault} :
    checkCall r function args = .error fault ↔ (call function args).Offends r fault := by
  unfold checkCall
  split
  · next hnone =>
    have hfunction : ¬ Anchor.IsFunction function := by
      rw [← Anchor.exists_ofFunction?_iff, hnone]
      exact fun ⟨_, he⟩ => nomatch he
    constructor
    · rintro ⟨⟩
      exact .unknownFunction hfunction
    · intro h
      cases h with
      | unknownFunction _ => rfl
      | badArguments hknown _ => exact absurd hknown hfunction
      | matchedColumn hknown _ => exact absurd hknown hfunction
  · next anchor hanchor =>
    have hfunction : Anchor.IsFunction function := Anchor.exists_ofFunction?_iff.1 ⟨anchor, hanchor⟩
    split
    · next column text =>
      by_cases hcolumn : r.isAllowedColumn column = true
      · rw [checkColumn_eq_ok.2 hcolumn]
        refine ⟨nofun, fun h => ?_⟩
        cases h with
        | unknownFunction hunknown => exact absurd hfunction hunknown
        | badArguments _ hargs => exact absurd rfl (hargs column text)
        | matchedColumn _ hother => exact absurd hcolumn hother
      · rw [checkColumn, if_neg hcolumn]
        constructor
        · rintro ⟨⟩
          exact .matchedColumn hfunction hcolumn
        · intro h
          cases h with
          | unknownFunction hunknown => exact absurd hfunction hunknown
          | badArguments _ hargs => exact absurd rfl (hargs column text)
          | matchedColumn _ _ => rfl
    · next hargs =>
      constructor
      · rintro ⟨⟩
        exact .badArguments hfunction hargs
      · intro h
        cases h with
        | unknownFunction hunknown => exact absurd hfunction hunknown
        | badArguments _ _ => rfl
        | matchedColumn _ _ => exact absurd rfl (hargs _ _)

/-- **A leaf that is refused offends**, and it is refused for the first reason that it gives. -/
theorem check_eq_error_iff {l : Leaf} {fault : Fault} :
    l.check r = .error fault ↔ l.Offends r fault := by
  cases l with
  | compare column op literal => exact checkCompare_eq_error_iff
  | call function args => exact checkCall_eq_error_iff

end Leaf

/-! ## Refusals -/

/-- What a computation is refused for. -/
def refusal {α : Type} : Except Fault α → Option Fault
  | .ok _ => none
  | .error fault => some fault

section Refusal

variable {α β : Type} {x : Except Fault α}

theorem refusal_eq_some_iff {fault : Fault} : refusal x = some fault ↔ x = .error fault := by
  cases x <;> simp [refusal]

theorem refusal_eq_none_iff : refusal x = none ↔ ∃ a, x = .ok a := by
  cases x <;> simp [refusal]

/-- The first of two computations that is refused decides, if the second does not depend on it. -/
theorem refusal_bind {f : α → Except Fault β} {other : Option Fault}
    (hf : ∀ a, refusal (f a) = other) : refusal (x >>= f) = (refusal x).or other := by
  cases x with
  | ok a => exact hf a
  | error fault => rfl

theorem refusal_bind_pure (g : α → β) : refusal (x >>= fun a => pure (g a)) = refusal x := by
  cases x <;> rfl

end Refusal

variable {r : Resource}

/-- **A filter is refused for what the first of its leaves is refused for.** -/
theorem refusal_check (f : Filter) :
    refusal (check r f) = f.leaves.findSome? fun l => refusal (l.check r) := by
  induction f with
  | compare column op literal => exact (List.findSome?_singleton ..).symm
  | call function args => exact (List.findSome?_singleton ..).symm
  | and left right ihl ihr =>
    rw [leaves, List.findSome?_append, ← ihl, ← ihr, check]
    exact refusal_bind fun _ => refusal_bind_pure _
  | or left right ihl ihr =>
    rw [leaves, List.findSome?_append, ← ihl, ← ihr, check]
    exact refusal_bind fun _ => refusal_bind_pure _
  | not inner ih =>
    rw [leaves, ← ih, check]
    exact refusal_bind_pure _

/-- A filter passes its check when each of its leaves is well formed. -/
theorem exists_check_eq_ok_iff {f : Filter} :
    (∃ p, check r f = .ok p) ↔ ∀ l ∈ f.leaves, l.WellFormed r := by
  rw [← refusal_eq_none_iff, refusal_check, List.findSome?_eq_none_iff]
  simp only [refusal_eq_none_iff, Leaf.exists_check_eq_ok_iff]

/-- **A filter is refused for its leftmost leaf that offends.** -/
theorem check_eq_error_iff {f : Filter} {fault : Fault} : check r f = .error fault ↔
    ∃ before l after, f.leaves = before ++ l :: after ∧ (∀ l' ∈ before, l'.WellFormed r) ∧
      l.Offends r fault := by
  rw [← refusal_eq_some_iff, refusal_check, List.findSome?_eq_some_iff]
  simp only [refusal_eq_some_iff, refusal_eq_none_iff, Leaf.check_eq_error_iff,
    Leaf.exists_check_eq_ok_iff, and_comm (a := Leaf.Offends r _ fault)]

/-! ## Predicates -/

variable {f : Filter} {p : Predicate}

/-- A predicate tests the columns that the filter names. -/
theorem tested_eq_of_check (h : check r f = .ok p) : p.tested = f.leaves.flatMap Leaf.columns := by
  induction f generalizing p with
  | compare column op literal =>
    obtain ⟨-, ⟨-, -, rfl⟩ | ⟨-, -, rfl⟩ | ⟨-, rfl⟩⟩ := checkCompare_eq_ok.1 h <;> rfl
  | call function args =>
    obtain ⟨anchor, column, text, -, rfl, -, rfl⟩ := checkCall_eq_ok.1 h
    rfl
  | and left right ihl ihr =>
    obtain ⟨p₁, p₂, h₁, h₂, rfl⟩ := check_and_eq_ok.1 h
    rw [leaves, List.flatMap_append, ← ihl h₁, ← ihr h₂, Predicate.tested]
  | or left right ihl ihr =>
    obtain ⟨p₁, p₂, h₁, h₂, rfl⟩ := check_or_eq_ok.1 h
    rw [leaves, List.flatMap_append, ← ihl h₁, ← ihr h₂, Predicate.tested]
  | not inner ih =>
    obtain ⟨p₁, h₁, rfl⟩ := check_not_eq_ok.1 h
    rw [leaves, ← ih h₁, Predicate.tested]

/-- A predicate compares with single values only. -/
theorem compared_of_check (h : check r f = .ok p) : ∀ v ∈ p.compared, v.IsPlain := by
  induction f generalizing p with
  | compare column op literal =>
    obtain ⟨-, ⟨-, -, rfl⟩ | ⟨-, -, rfl⟩ | ⟨hliteral, rfl⟩⟩ := checkCompare_eq_ok.1 h
    · exact nofun
    · exact nofun
    · exact List.forall_mem_singleton.2 (Literal.isPlain_value hliteral)
  | call function args =>
    obtain ⟨anchor, column, text, -, -, -, rfl⟩ := checkCall_eq_ok.1 h
    exact nofun
  | and left right ihl ihr =>
    obtain ⟨p₁, p₂, h₁, h₂, rfl⟩ := check_and_eq_ok.1 h
    exact List.forall_mem_append.2 ⟨ihl h₁, ihr h₂⟩
  | or left right ihl ihr =>
    obtain ⟨p₁, p₂, h₁, h₂, rfl⟩ := check_or_eq_ok.1 h
    exact List.forall_mem_append.2 ⟨ihl h₁, ihr h₂⟩
  | not inner ih =>
    obtain ⟨p₁, h₁, rfl⟩ := check_not_eq_ok.1 h
    exact fun v hv => ih h₁ v hv

/-- **The check of a filter accepts what is well formed and refuses the rest for its leftmost leaf
that offends.** The predicate lists the columns that the filter names, each where it appears first,
and compares with no null and no list. -/
theorem check_leftmost (r : Resource) (f : Filter) :
    ((∃ p, check r f = .ok p) ↔ ∀ l ∈ f.leaves, l.WellFormed r) ∧
    (∀ fault, check r f = .error fault ↔ ∃ before l after, f.leaves = before ++ l :: after ∧
      (∀ l' ∈ before, l'.WellFormed r) ∧ l.Offends r fault) ∧
    ∀ p, check r f = .ok p →
      p.columns = (f.leaves.flatMap Leaf.columns).eraseDups ∧ p.columns.Nodup ∧
        ∀ v ∈ p.compared, v ≠ .null ∧ ∀ items, v ≠ .list items := by
  refine ⟨exists_check_eq_ok_iff, fun fault => check_eq_error_iff, fun p h => ⟨?_, ?_, ?_⟩⟩
  · rw [Predicate.columns, tested_eq_of_check h, Columns.distinct_eq_eraseDups]
  · exact Columns.nodup_distinct _
  · exact compared_of_check h

/-- Of a column that songs do not have and an ordering of null, both deep in a tree, the column
stands further to the left. -/
theorem check_leftmost_songs : (∃ p, check songs starless = .ok p ∧
    p.columns = ["title", "year"] ∧ p.columns.Nodup ∧
      ∀ v ∈ p.compared, v ≠ .null ∧ ∀ items, v ≠ .list items) ∧
    check songs (.and starless (.not (.or (.call "CONTAINS" [.column "label", .literal (.text "")])
      (.compare "year" .gt .null)))) = .error (.unknownColumn "label") := by
  obtain ⟨p, h⟩ := exists_of_isOk (x := check songs starless) (by decide +kernel)
  have hfunction : Anchor.IsFunction "CONTAINS" := ⟨.anywhere, by decide⟩
  have hlabel : ¬ songs.isAllowedColumn "label" = true := by decide
  obtain ⟨hcolumns, hnodup, hcompared⟩ := (check_leftmost songs starless).2.2 p h
  refine ⟨⟨p, h, hcolumns, hnodup, hcompared⟩, ?_⟩
  refine ((check_leftmost songs _).2.1 _).2 ⟨starless.leaves, _, _, rfl, ?_,
    .matchedColumn hfunction hlabel⟩
  exact (check_leftmost songs starless).1.1 ⟨p, h⟩

end Filter

end RequestQuery
