import Mathlib.Data.List.Pairwise
import RequestQuery.Proofs.JoinKey

/-!
# Looked-up keys

What is bound to look up the rows below. The scalars of the owner column are taken in the order of
first appearance, each once (`found`), and each is bound as the value that stands for it
(`ownerKeys_eq`). That value gives the scalar back unless it is an integer beyond 64 bits, for which
the nearest binary64 number is bound. Two such integers may be bound as one number, which is then
looked up twice; and zero and minus zero are told apart though they are equal.

* `Scalar.bound`: the value that is bound for a scalar.
* `ownerKeys_exact_iff`: the keys are the scalars of the column, and no two of them are equal,
  exactly when the column has neither an integer beyond 64 bits nor both zeros.
-/

namespace RequestQuery

/-! ## Bound scalars -/

/-- The value that is bound for a scalar. -/
def Scalar.bound : Scalar → Value
  | .bool b => .bool b
  | .int n =>
    match Decimal.toInt64? n with
    | some i => .int i
    | none => .float (Binary64.ofInt n)
  | .float x _ => .float x
  | .text s => .text s

/-- Not an integer beyond 64 bits. -/
def Scalar.Fits64 : Scalar → Prop
  | .int n => Decimal.minInt64 ≤ n ∧ n ≤ Decimal.maxInt64
  | _ => True

namespace Scalar

theorem ofJson?_toJson (s : Scalar) : Value.ofJson? s.toJson = some s.bound := by
  cases s with
  | int n =>
    rw [toJson, Value.ofJson?, bound]
    cases Decimal.toInt64? n <;> rfl
  | bool b => rfl
  | float x finite => rfl
  | text s => rfl

/-- A bound value gives its scalar back when that is no integer beyond 64 bits. -/
theorem toJson_bound_iff {s : Scalar} : s.bound.toJson = s.toJson ↔ s.Fits64 := by
  cases s with
  | int n =>
    rw [bound]
    cases hn : Decimal.toInt64? n with
    | some i =>
      obtain rfl := Decimal.toInt64?_eq_some_iff.1 hn
      exact ⟨fun _ => ⟨i.le_toInt, i.toInt_le⟩, fun _ => rfl⟩
    | none =>
      refine ⟨fun h => ?_, fun h => absurd h (Decimal.toInt64?_eq_none_iff.1 hn)⟩
      simp only [Value.toJson, Json.ofBinary64, toJson] at h
      split at h <;> cases h
  | bool b => exact ⟨fun _ => trivial, fun _ => rfl⟩
  | float x finite => simp [bound, Value.toJson, Json.ofBinary64, finite, toJson, Fits64]
  | text s => exact ⟨fun _ => trivial, fun _ => rfl⟩

theorem toJson_injective {s t : Scalar} (h : s.toJson = t.toJson) : s = t :=
  chars_injective (congrArg Json.chars h)

end Scalar

/-! ## Keys in the order of first appearance -/

/-- The scalars in a column of rows, each once, in the order of first appearance. -/
def found (column : String) (rows : List Row) : List Scalar :=
  (rows.filterMap (scalarAt column)).eraseDups

theorem mem_found {column : String} {rows : List Row} {s : Scalar} :
    s ∈ found column rows ↔ ∃ row ∈ rows, scalarAt column row = some s := by
  rw [found, List.mem_eraseDups, List.mem_filterMap]

theorem nodup_eraseDups {α : Type} [BEq α] [LawfulBEq α] (as : List α) : as.eraseDups.Nodup := by
  match as with
  | [] => exact List.nodup_nil
  | a :: as =>
    rw [List.eraseDups_cons, List.nodup_cons]
    refine ⟨fun h => ?_, nodup_eraseDups _⟩
    simp at h
  termination_by as.length
  decreasing_by exact Nat.lt_succ_of_le (List.length_filter_le ..)

/-- The texts that were seen tell which scalars were. -/
theorem keysOf_eq (seen : List Scalar) (values : List Json) :
    keysOf (seen.map (·.toJson.toText)) values =
      ((values.filterMap Json.toScalar?).filter (· ∉ seen)).eraseDups.map Scalar.bound := by
  induction values generalizing seen with
  | nil => rfl
  | cons j rest ih =>
    rw [keysOf, joinKey?_eq, List.filterMap_cons]
    cases hj : j.toScalar? with
    | none => exact ih seen
    | some s =>
      have hmem : s.toJson.toText ∈ seen.map (·.toJson.toText) ↔ s ∈ seen := by
        refine ⟨fun h => ?_, List.mem_map_of_mem⟩
        obtain ⟨t, ht, htext⟩ := List.mem_map.1 h
        rwa [← Scalar.chars_injective (String.ofList_injective htext)]
      obtain rfl := Json.toScalar?_eq_some_iff.1 hj
      simp only [Option.map_some, hmem, Scalar.ofJson?_toJson]
      by_cases hs : s ∈ seen
      · simp [hs, ih seen]
      · have hseen : ∀ t : Scalar, (!t == s && decide (t ∉ seen)) = decide (t ∉ s :: seen) := by
          intro t
          by_cases ht : t = s <;> simp [ht]
        have hrest := ih (s :: seen)
        rw [List.map_cons] at hrest
        rw [if_neg hs, hrest, List.filter_cons_of_pos (by simpa using hs), List.eraseDups_cons,
          List.map_cons, List.filter_filter]
        simp only [hseen]

/-- **The values that are bound are those of the scalars found**, in their order. -/
theorem ownerKeys_eq (column : String) (rows : List Row) :
    ownerKeys column rows = (found column rows).map Scalar.bound := by
  have h := keysOf_eq [] (rows.filterMap (Entries.get? column))
  rw [List.filterMap_filterMap, List.filter_eq_self.2 fun _ _ => by simp] at h
  exact h

/-! ## Exact keys -/

/-- Zero or minus zero. -/
def Binary64.IsZero (x : Binary64) : Prop := x.significand = 0

/-- Values that compare as equal: the same value, or two zeros of whatever sign. No scalar is bound
as a NaN, which would differ from itself. -/
def Value.Equal (v w : Value) : Prop :=
  v = w ∨ ∃ x y, v = .float x ∧ w = .float y ∧ x.IsZero ∧ y.IsZero

theorem Value.Equal.symm {v w : Value} (h : v.Equal w) : w.Equal v := by
  rcases h with rfl | ⟨x, y, rfl, rfl, hx, hy⟩
  · exact .inl rfl
  · exact .inr ⟨y, x, rfl, rfl, hy, hx⟩

/-- Both zeros are among the scalars. -/
def HasBothZeros (scalars : List Scalar) : Prop :=
  ∃ x y hx hy, .float x hx ∈ scalars ∧ .float y hy ∈ scalars ∧ x ≠ y ∧ x.IsZero ∧ y.IsZero

namespace Scalar

variable {s t : Scalar}

/-- Scalars within 64 bits are told apart by the values that are bound for them. -/
theorem eq_of_bound_eq (hs : s.Fits64) (ht : t.Fits64) (h : s.bound = t.bound) : s = t := by
  refine toJson_injective ?_
  rw [← toJson_bound_iff.2 hs, ← toJson_bound_iff.2 ht, h]

/-- Only a number that is no integer is bound as one, within 64 bits. -/
theorem eq_float_of_bound (hs : s.Fits64) {x : Binary64} (h : s.bound = .float x) :
    ∃ finite, s = .float x finite := by
  cases s with
  | int n =>
    rw [bound] at h
    cases hn : Decimal.toInt64? n with
    | some i => simp [hn] at h
    | none => exact absurd hs (Decimal.toInt64?_eq_none_iff.1 hn)
  | float y finite =>
    cases h
    exact ⟨finite, rfl⟩
  | bool b => cases h
  | text s => cases h

end Scalar

/-- Distinct scalars within 64 bits are bound as values that are not equal, unless they are the two
zeros. -/
theorem pairwise_bound_iff {scalars : List Scalar} (hnodup : scalars.Nodup)
    (hfits : ∀ s ∈ scalars, s.Fits64) :
    (scalars.map Scalar.bound).Pairwise (fun v w => ¬ v.Equal w) ↔ ¬ HasBothZeros scalars := by
  rw [List.pairwise_map]
  constructor
  · rintro h ⟨x, y, hx, hy, hxmem, hymem, hne, hxzero, hyzero⟩
    have : Std.Symm fun s t : Scalar => ¬ s.bound.Equal t.bound := ⟨fun _ _ h he => h he.symm⟩
    refine h.forall hxmem hymem ?_ (.inr ⟨x, y, rfl, rfl, hxzero, hyzero⟩)
    exact fun he => hne (Scalar.float.inj he)
  · intro hzeros
    refine hnodup.imp_of_mem fun {s t} hs ht hne hequal => ?_
    rcases hequal with heq | ⟨x, y, hx, hy, hxzero, hyzero⟩
    · exact hne (Scalar.eq_of_bound_eq (hfits s hs) (hfits t ht) heq)
    · obtain ⟨hxfinite, rfl⟩ := Scalar.eq_float_of_bound (hfits s hs) hx
      obtain ⟨hyfinite, rfl⟩ := Scalar.eq_float_of_bound (hfits t ht) hy
      refine hzeros ⟨x, y, hxfinite, hyfinite, hs, ht, ?_, hxzero, hyzero⟩
      rintro rfl
      exact hne rfl

/-- **The keys of a column are the strings, numbers and booleans in it, each once and in the order
of first appearance, and no two of them are equal, exactly when no integer in it is beyond 64 bits
and it does not have both zeros.** -/
theorem ownerKeys_exact_iff (column : String) (rows : List Row) :
    (ownerKeys column rows).map Value.toJson = (found column rows).map Scalar.toJson ∧
        (ownerKeys column rows).Pairwise (fun v w => ¬ v.Equal w) ↔
      (∀ s ∈ found column rows, s.Fits64) ∧ ¬ HasBothZeros (found column rows) := by
  have hnodup : (found column rows).Nodup := nodup_eraseDups _
  have hexact : (ownerKeys column rows).map Value.toJson = (found column rows).map Scalar.toJson ↔
      ∀ s ∈ found column rows, s.Fits64 := by
    simp only [ownerKeys_eq, List.map_map, List.map_inj_left, Function.comp_apply,
      Scalar.toJson_bound_iff]
  rw [hexact]
  refine and_congr_right fun hfits => ?_
  rw [ownerKeys_eq]
  exact pairwise_bound_iff hnodup hfits

/-- Two rows whose keys are the first integers beyond 64 bits. -/
def rowsBeyond : List Row :=
  [[("id", .int 9223372036854775808)], [("id", .int 9223372036854775809)]]

/-- Neither key is in the column, and they are equal. -/
theorem neighbours_bound_as_one :
    found "id" rowsBeyond = [.int 9223372036854775808, .int 9223372036854775809] ∧
    ownerKeys "id" rowsBeyond = [.float ⟨0x43E0000000000000⟩, .float ⟨0x43E0000000000000⟩] ∧
    ¬ ((ownerKeys "id" rowsBeyond).map Value.toJson = (found "id" rowsBeyond).map Scalar.toJson ∧
      (ownerKeys "id" rowsBeyond).Pairwise fun v w => ¬ v.Equal w) := by
  have hfound : found "id" rowsBeyond =
      [.int 9223372036854775808, .int 9223372036854775809] := by decide +kernel
  have hfirst : Binary64.ofInt 9223372036854775808 = ⟨0x43E0000000000000⟩ := by decide +kernel
  have hsecond : Binary64.ofInt 9223372036854775809 = ⟨0x43E0000000000000⟩ := by decide +kernel
  have hkeys : ownerKeys "id" rowsBeyond =
      [.float ⟨0x43E0000000000000⟩, .float ⟨0x43E0000000000000⟩] := by
    rw [ownerKeys_eq, hfound, ← hfirst]
    simp [Scalar.bound, Decimal.toInt64?, Decimal.minInt64, Decimal.maxInt64, hfirst, hsecond]
  refine ⟨hfound, hkeys, fun h => ?_⟩
  rw [hkeys, List.pairwise_pair] at h
  exact h.2 (.inl rfl)

end RequestQuery
