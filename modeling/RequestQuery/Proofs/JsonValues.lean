import RequestQuery.Sql.Value

/-!
# JSON forms of values

A value is written as a JSON document and read back from one. The two agree but for what only one of
them has: a number that is not finite is written as null, an object has no value, and an integer
beyond 64 bits is read as the nearest binary64 number, which is not written as an integer again.

* `Json.Within`: what occurs in a document, down through its arrays.
* `Value.floats`: the binary64 numbers of a value.
* `Value.ofJson?_toJson_iff`: the values that are read back.
* `Value.ofJson?_eq_none_iff`: the documents without a value.
* `Value.toJson_of_ofJson?_iff`: the documents that are written again as they were read.
* `Value.json_lossless`: **the three together.**
-/

namespace RequestQuery

namespace Json

/-- What occurs in a document: itself, and what occurs in an item of it when it is an array. -/
inductive Within : Json → Json → Prop
  | refl (j : Json) : Within j j
  | item {j item : Json} {items : List Json} (hmem : item ∈ items) (h : Within j item) :
      Within j (.array items)

/-- An object occurs in the document, down through its arrays. -/
def HasObject (j : Json) : Prop := ∃ fields, (Json.object fields).Within j

/-- Each integer that occurs in the document fits 64 bits with a sign. -/
def IntsFit (j : Json) : Prop :=
  ∀ n, (Json.int n).Within j → Decimal.minInt64 ≤ n ∧ n ≤ Decimal.maxInt64

theorem hasObject_object (fields : List (String × Json)) : (Json.object fields).HasObject :=
  ⟨fields, .refl _⟩

theorem hasObject_array_iff {items : List Json} :
    (Json.array items).HasObject ↔ ∃ item ∈ items, item.HasObject := by
  constructor
  · rintro ⟨fields, _ | ⟨hmem, h⟩⟩
    exact ⟨_, hmem, fields, h⟩
  · rintro ⟨item, hmem, fields, h⟩
    exact ⟨fields, .item hmem h⟩

theorem intsFit_int_iff {n : Int} :
    (Json.int n).IntsFit ↔ Decimal.minInt64 ≤ n ∧ n ≤ Decimal.maxInt64 := by
  constructor
  · exact fun h => h n (.refl _)
  · rintro h m ⟨⟩
    exact h

theorem intsFit_array_iff {items : List Json} :
    (Json.array items).IntsFit ↔ ∀ item ∈ items, item.IntsFit := by
  constructor
  · exact fun h item hmem n hn => h n (.item hmem hn)
  · rintro h n (_ | ⟨hmem, hn⟩)
    exact h _ hmem n hn

end Json

namespace Value

/-! ## Values that are read back -/

mutual

/-- The binary64 numbers of a value, down through its lists. -/
def floats : Value → List Binary64
  | .float x => [x]
  | .list items => floatsIn items
  | _ => []

/-- The binary64 numbers of a list of values. -/
def floatsIn : List Value → List Binary64
  | [] => []
  | item :: rest => item.floats ++ floatsIn rest

end

theorem toJson_float {x : Binary64} (h : x.isFinite = true) :
    (Value.float x).toJson = .float x h := by
  rw [toJson, Json.ofBinary64, dif_pos h]

theorem ofJsons?_cons_eq_some_iff {item : Json} {rest : List Json} {v : Value} {vs : List Value} :
    ofJsons? (item :: rest) = some (v :: vs) ↔ ofJson? item = some v ∧ ofJsons? rest = some vs := by
  rw [ofJsons?]
  cases ofJson? item <;> cases ofJsons? rest <;> simp

mutual

/-- **A value is read back from its JSON form exactly when its numbers are finite.** -/
theorem ofJson?_toJson_iff : (v : Value) →
    (ofJson? v.toJson = some v ↔ ∀ x ∈ v.floats, x.isFinite = true)
  | .null => by simp [toJson, ofJson?, floats]
  | .bool b => by simp [toJson, ofJson?, floats]
  | .text s => by simp [toJson, ofJson?, floats]
  | .int n => by simp [toJson, ofJson?, floats, Decimal.toInt64?_toInt]
  | .float x => by
    rw [floats, List.forall_mem_singleton, toJson, Json.ofBinary64]
    split
    · next h => exact iff_of_true rfl h
    · next h => exact iff_of_false (fun hnull => nomatch Option.some.inj hnull) h
  | .list items => by
    rw [floats, toJson, ofJson?, ← ofJsons?_toJsons_iff items, Option.map_eq_some_iff]
    simp

theorem ofJsons?_toJsons_iff : (vs : List Value) →
    (ofJsons? (toJsons vs) = some vs ↔ ∀ x ∈ floatsIn vs, x.isFinite = true)
  | [] => by simp [toJsons, ofJsons?, floatsIn]
  | v :: vs => by
    rw [toJsons, ofJsons?_cons_eq_some_iff, ofJson?_toJson_iff v, ofJsons?_toJsons_iff vs, floatsIn,
      List.forall_mem_append]

end

/-! ## Documents without a value -/

mutual

/-- **A document has no value exactly when an object occurs in it.** -/
theorem ofJson?_eq_none_iff : (j : Json) → (ofJson? j = none ↔ j.HasObject)
  | .null => iff_of_false (fun h => nomatch h) (fun ⟨_, h⟩ => nomatch h)
  | .bool _ => iff_of_false (fun h => nomatch h) (fun ⟨_, h⟩ => nomatch h)
  | .float .. => iff_of_false (fun h => nomatch h) (fun ⟨_, h⟩ => nomatch h)
  | .text _ => iff_of_false (fun h => nomatch h) (fun ⟨_, h⟩ => nomatch h)
  | .int n => by
    refine iff_of_false ?_ (fun ⟨_, h⟩ => nomatch h)
    rw [ofJson?]
    cases Decimal.toInt64? n <;> exact Option.some_ne_none _
  | .array items => by
    rw [ofJson?, Option.map_eq_none_iff, ofJsons?_eq_none_iff items, Json.hasObject_array_iff]
  | .object fields => iff_of_true rfl (Json.hasObject_object fields)

theorem ofJsons?_eq_none_iff : (js : List Json) →
    (ofJsons? js = none ↔ ∃ j ∈ js, j.HasObject)
  | [] => by simp [ofJsons?]
  | j :: js => by
    simp only [List.mem_cons, exists_eq_or_imp]
    rw [← ofJson?_eq_none_iff j, ← ofJsons?_eq_none_iff js, ofJsons?]
    cases ofJson? j <;> cases ofJsons? js <;> simp

end

/-! ## Documents that are written again -/

theorem toJson_ofInt64_iff {n : Int} {v : Value} (h : ofJson? (.int n) = some v) :
    v.toJson = .int n ↔ Decimal.minInt64 ≤ n ∧ n ≤ Decimal.maxInt64 := by
  rw [ofJson?] at h
  cases hn : Decimal.toInt64? n with
  | some i =>
    rw [hn] at h
    obtain rfl := Option.some.inj h
    obtain rfl := Decimal.toInt64?_eq_some_iff.1 hn
    exact iff_of_true rfl ⟨i.le_toInt, i.toInt_le⟩
  | none =>
    rw [hn] at h
    obtain rfl := Option.some.inj h
    refine iff_of_false (fun hfloat => ?_) (Decimal.toInt64?_eq_none_iff.1 hn)
    rw [toJson, Json.ofBinary64] at hfloat
    split at hfloat <;> cases hfloat

mutual

/-- **The value of a document is written as the document exactly when its integers fit 64 bits.** -/
theorem toJson_of_ofJson?_iff : (j : Json) → {v : Value} → ofJson? j = some v →
    (v.toJson = j ↔ j.IntsFit)
  | .null, v, h => by
    obtain rfl := Option.some.inj h
    exact iff_of_true rfl fun _ hn => nomatch hn
  | .bool b, v, h => by
    obtain rfl := Option.some.inj h
    exact iff_of_true rfl fun _ hn => nomatch hn
  | .float x finite, v, h => by
    obtain rfl := Option.some.inj h
    exact iff_of_true (toJson_float finite) fun _ hn => nomatch hn
  | .text s, v, h => by
    obtain rfl := Option.some.inj h
    exact iff_of_true rfl fun _ hn => nomatch hn
  | .int n, v, h => by rw [Json.intsFit_int_iff, toJson_ofInt64_iff h]
  | .array items, v, h => by
    rw [ofJson?, Option.map_eq_some_iff] at h
    obtain ⟨vs, hvs, rfl⟩ := h
    rw [toJson, Json.array.injEq, toJsons_of_ofJsons?_iff items hvs, Json.intsFit_array_iff]
  | .object fields, v, h => nomatch h

theorem toJsons_of_ofJsons?_iff : (js : List Json) → {vs : List Value} → ofJsons? js = some vs →
    (toJsons vs = js ↔ ∀ j ∈ js, j.IntsFit)
  | [], vs, h => by
    obtain rfl := Option.some.inj h
    simp [toJsons]
  | j :: js, vs, h => by
    cases vs with
    | nil =>
      rw [ofJsons?] at h
      split at h <;> simp at h
    | cons v vs =>
      obtain ⟨hv, hvs⟩ := ofJsons?_cons_eq_some_iff.1 h
      rw [toJsons, List.cons.injEq, toJson_of_ofJson?_iff j hv, toJsons_of_ofJsons?_iff js hvs,
        List.forall_mem_cons]

end

/-- **Values and JSON documents are turned into one another without loss.** A value is read back
from its JSON form exactly when its numbers are finite; a document has no value exactly when an
object occurs in it; and a document has a value that is written as the document itself exactly when
no object occurs in it and its integers fit 64 bits. -/
theorem json_lossless :
    (∀ v : Value, ofJson? v.toJson = some v ↔ ∀ x ∈ v.floats, x.isFinite = true) ∧
      (∀ j : Json, ofJson? j = none ↔ j.HasObject) ∧
      ∀ j : Json, (∃ v, ofJson? j = some v ∧ v.toJson = j) ↔ ¬ j.HasObject ∧ j.IntsFit := by
  refine ⟨ofJson?_toJson_iff, ofJson?_eq_none_iff, fun j => ?_⟩
  rw [← ofJson?_eq_none_iff]
  constructor
  · rintro ⟨v, hv, hjson⟩
    exact ⟨by simp [hv], (toJson_of_ofJson?_iff j hv).1 hjson⟩
  · rintro ⟨hsome, hfit⟩
    obtain ⟨v, hv⟩ := Option.ne_none_iff_exists'.1 hsome
    exact ⟨v, hv, (toJson_of_ofJson?_iff j hv).2 hfit⟩

end Value

end RequestQuery
