import RequestQuery.Filter.Check
import RequestQuery.Proofs.Fallible

/-!
# Filters that pass their check

What the check of a filter makes of its leaves (`Filter.checkCompare_eq_ok`,
`Filter.checkCall_eq_ok`) and of the connectives (`Filter.check_and_eq_ok` and the others), and
from it that the predicate tests only columns that a request may name
(`Filter.tested_of_check`). A text compiles when it is short enough, parses, and the filter passes
(`Filter.compile_eq_ok_iff`).
-/

namespace RequestQuery.Filter

open Fallible

variable {r : Resource} {p : Predicate}

/-! ## Leaves -/

theorem checkColumn_eq_ok {column : String} :
    checkColumn r column = .ok () ↔ r.isAllowedColumn column = true := by
  unfold checkColumn
  cases r.isAllowedColumn column <;> simp

/-- A comparison with a literal keeps its operator and the value of the literal, unless it is a null
test. -/
theorem checkCompare_eq_ok {column : String} {op : Comparison} {literal : Literal} :
    checkCompare r column op literal = .ok p ↔ r.isAllowedColumn column = true ∧
      (op = .eq ∧ literal = .null ∧ p = .isNull column false ∨
        op = .ne ∧ literal = .null ∧ p = .isNull column true ∨
          literal ≠ .null ∧ p = .compare column op literal.value) := by
  unfold checkCompare
  rw [check_bind_eq_ok, checkColumn_eq_ok]
  refine and_congr_right fun _ => ?_
  cases literal <;> cases op <;> simp [pure_eq_ok, eq_comm (a := p)]

/-- A call is of a known function with a column and a text. -/
theorem checkCall_eq_ok {function : String} {args : List Argument} :
    checkCall r function args = .ok p ↔ ∃ anchor column text,
      Anchor.ofFunction? function = some anchor ∧
        args = [.column column, .literal (.text text)] ∧
          r.isAllowedColumn column = true ∧ p = .like column anchor text := by
  unfold checkCall
  split
  · next hnone =>
    rw [hnone]
    exact ⟨nofun, nofun⟩
  · next anchor hanchor =>
    rw [hanchor]
    split
    · next column text =>
      rw [check_bind_eq_ok, checkColumn_eq_ok, pure_eq_ok]
      constructor
      · rintro ⟨hc, rfl⟩
        exact ⟨anchor, column, text, rfl, rfl, hc, rfl⟩
      · rintro ⟨_, _, _, h₁, h₂, hc, rfl⟩
        cases h₁
        cases h₂
        exact ⟨hc, rfl⟩
    · next hargs =>
      refine ⟨nofun, ?_⟩
      rintro ⟨_, column, text, -, rfl, -⟩
      exact absurd rfl (hargs column text)

/-! ## Connectives -/

theorem check_and_eq_ok {left right : Filter} : check r (.and left right) = .ok p ↔
    ∃ p₁ p₂, check r left = .ok p₁ ∧ check r right = .ok p₂ ∧ p = .and p₁ p₂ := by
  rw [check]
  simp only [bind_eq_ok, pure_eq_ok, eq_comm (a := p), exists_and_left]

theorem check_or_eq_ok {left right : Filter} : check r (.or left right) = .ok p ↔
    ∃ p₁ p₂, check r left = .ok p₁ ∧ check r right = .ok p₂ ∧ p = .or p₁ p₂ := by
  rw [check]
  simp only [bind_eq_ok, pure_eq_ok, eq_comm (a := p), exists_and_left]

theorem check_not_eq_ok {inner : Filter} : check r (.not inner) = .ok p ↔
    ∃ p₁, check r inner = .ok p₁ ∧ p = .not p₁ := by
  rw [check]
  simp only [bind_eq_ok, pure_eq_ok, eq_comm (a := p)]

/-! ## Columns -/

/-- **A predicate tests only columns that a request may name.** -/
theorem tested_of_check {f : Filter} (h : check r f = .ok p) :
    ∀ column ∈ p.tested, r.isAllowedColumn column = true := by
  induction f generalizing p with
  | compare column op literal =>
    obtain ⟨hc, ⟨-, -, rfl⟩ | ⟨-, -, rfl⟩ | ⟨-, rfl⟩⟩ := checkCompare_eq_ok.1 h <;>
      simpa [Predicate.tested] using hc
  | call function args =>
    obtain ⟨anchor, column, text, -, -, hc, rfl⟩ := checkCall_eq_ok.1 h
    simpa [Predicate.tested] using hc
  | and left right ihl ihr =>
    obtain ⟨p₁, p₂, h₁, h₂, rfl⟩ := check_and_eq_ok.1 h
    exact fun column hc => (List.mem_append.1 hc).elim (ihl h₁ column) (ihr h₂ column)
  | or left right ihl ihr =>
    obtain ⟨p₁, p₂, h₁, h₂, rfl⟩ := check_or_eq_ok.1 h
    exact fun column hc => (List.mem_append.1 hc).elim (ihl h₁ column) (ihr h₂ column)
  | not inner ih =>
    obtain ⟨p₁, h₁, rfl⟩ := check_not_eq_ok.1 h
    exact fun column hc => ih h₁ column hc

/-! ## Texts -/

theorem checkLength_eq_ok {source : String} {limits : Limits} :
    checkLength source limits = .ok () ↔ Utf8.width source ≤ limits.maxFilterLength := by
  unfold checkLength
  simp only
  split <;> simp <;> omega

/-- **A text compiles when it is short enough, parses, and the filter passes its check.** -/
theorem compile_eq_ok_iff {source : String} {limits : Limits} :
    compile source r limits = .ok p ↔ Utf8.width source ≤ limits.maxFilterLength ∧
      ∃ f, parse limits.maxFilterDepth source = .ok f ∧ check r f = .ok p := by
  unfold compile
  rw [check_bind_eq_ok, mapError_eq_ok, bind_eq_ok, checkLength_eq_ok]

/-- A filter text that compiles parses to a filter that passes the check. -/
theorem exists_check_of_compile {source : String} {limits : Limits}
    (h : compile source r limits = .ok p) :
    ∃ f, parse limits.maxFilterDepth source = .ok f ∧ check r f = .ok p :=
  (compile_eq_ok_iff.1 h).2

end RequestQuery.Filter
