import Mathlib.Tactic.IntervalCases
import RequestQuery.Json.Reader
import RequestQuery.Loading
import RequestQuery.Proofs.NumberText

/-!
# Join keys

Rows are matched by texts, and a text tells the value: strings are escaped so that they can be read
back, a number that is not an integer has a point or an exponent, and the numbers of each kind
differ in their digits. So two values match exactly when they are the same string, number or
boolean.

* `Scalar`: a string, a number or a boolean; `Json.toScalar?`: the scalar that a value is.
* `Scalar.readKind_chars`, `Scalar.chars_injective`: a scalar is told by its text, and its kind
  alone by the look of it.
* `joinKey?_eq_some_iff`: a value has the key of a scalar exactly when it is that scalar.
* `joinKey?_identifies`: which values have keys, and when two keys are the same.
* `Relation.Joins`: when a row belongs to a row above it; `matching_eq`: those rows are matched.
-/

namespace RequestQuery

/-- A string, a number or a boolean. -/
inductive Scalar where
  | bool (b : Bool)
  | int (n : Int)
  | float (x : Binary64) (finite : x.isFinite = true)
  | text (s : String)
  deriving DecidableEq

/-- The JSON value that a scalar is. -/
def Scalar.toJson : Scalar → Json
  | .bool b => .bool b
  | .int n => .int n
  | .float x finite => .float x finite
  | .text s => .text s

/-- The scalar that a value is, unless it is null, an array or an object. -/
def Json.toScalar? : Json → Option Scalar
  | .bool b => some (.bool b)
  | .int n => some (.int n)
  | .float x finite => some (.float x finite)
  | .text s => some (.text s)
  | .null | .array _ | .object _ => none

theorem Json.toScalar?_eq_some_iff {j : Json} {s : Scalar} :
    j.toScalar? = some s ↔ j = s.toJson := by
  constructor
  · intro h
    cases j <;> cases h <;> rfl
  · rintro rfl
    cases s <;> rfl

/-! ## Strings -/

namespace Json

theorem unescape?_control : ∀ n < 32, ∀ rest,
    unescape? (['\\', 'u', '0', '0'] ++ hexPair n ++ rest) = some (Char.ofNat n, rest) := by
  intro n hn rest
  interval_cases n <;> rfl

/-- An escaped character is read back. -/
theorem unescape?_escapeChar (c : Char) (rest : List Char) :
    unescape? (escapeChar c ++ rest) = some (c, rest) := by
  unfold escapeChar
  split
  · next h => subst h; rfl
  split
  · next h => subst h; rfl
  split
  · next h => subst h; rfl
  split
  · next h => subst h; rfl
  split
  · next h => subst h; rfl
  split
  · next h => subst h; rfl
  split
  · next h => subst h; rfl
  split
  · next h => rw [unescape?_control c.toNat h, Char.ofNat_toNat]
  · next hbackslash _ _ _ _ _ h =>
    rw [List.singleton_append, unescape?, if_neg h]
    · exact fun _ hc => absurd hc hbackslash
    · exact fun _ _ hc => absurd hc hbackslash
    · exact fun hc => absurd hc hbackslash

theorem escapeChar_ne_nil (c : Char) : escapeChar c ≠ [] := by
  intro h
  have := unescape?_escapeChar c []
  rw [h] at this
  cases this

/-- Escaped texts differ when the texts do. -/
theorem flatMap_escapeChar_injective {cs ds : List Char}
    (h : cs.flatMap escapeChar = ds.flatMap escapeChar) : cs = ds := by
  induction cs generalizing ds with
  | nil =>
    cases ds with
    | nil => rfl
    | cons d ds =>
      rw [List.flatMap_nil, List.flatMap_cons] at h
      exact absurd (List.append_eq_nil_iff.1 h.symm).1 (escapeChar_ne_nil d)
  | cons c cs ih =>
    cases ds with
    | nil =>
      rw [List.flatMap_nil, List.flatMap_cons] at h
      exact absurd (List.append_eq_nil_iff.1 h).1 (escapeChar_ne_nil c)
    | cons d ds =>
      rw [List.flatMap_cons, List.flatMap_cons] at h
      have hread := congrArg unescape? h
      rw [unescape?_escapeChar, unescape?_escapeChar] at hread
      obtain ⟨rfl, -⟩ := Prod.mk.inj (Option.some.inj hread)
      rw [ih (List.append_cancel_left h)]

theorem quotedChars_injective {s t : String} (h : quotedChars s = quotedChars t) : s = t := by
  unfold quotedChars at h
  have hescaped := List.append_cancel_left (List.append_cancel_right h)
  exact String.toList_inj.1 (flatMap_escapeChar_injective hescaped)

/-! ## Numbers -/

/-- An integer is read back. -/
theorem readInt?_intChars (n : Int) : Decimal.readInt? (intChars n) = some n := by
  unfold intChars
  split
  · rw [List.singleton_append, Decimal.readInt?, Decimal.readNat?_toDigits]
    exact congrArg some (by omega : -(n.natAbs : Int) = n)
  · have hsign {c : Char} (hc : c.isDigit = false) (cs : List Char) :
        Nat.toDigits 10 n.natAbs ≠ c :: cs := fun h => by
      rw [Nat.isDigit_of_mem_toDigits (by decide) (by decide) (h ▸ List.mem_cons_self)] at hc
      cases hc
    rw [List.nil_append, Decimal.readInt?, Decimal.readNat?_toDigits]
    · exact congrArg some (by omega : (n.natAbs : Int) = n)
    · exact fun cs => hsign rfl cs
    · exact fun cs => hsign rfl cs

theorem intChars_injective {m n : Int} (h : intChars m = intChars n) : m = n := by
  have hread := congrArg Decimal.readInt? h
  rw [readInt?_intChars, readInt?_intChars] at hread
  exact Option.some.inj hread

/-- The characters of an integer are digits, after a sign. -/
theorem mem_intChars {n : Int} {c : Char} (h : c ∈ intChars n) : c = '-' ∨ c.isDigit = true := by
  unfold intChars at h
  rcases List.mem_append.1 h with h | h
  · split at h
    · exact .inl (List.mem_singleton.1 h)
    · cases h
  · exact .inr (Nat.isDigit_of_mem_toDigits (by decide) (by decide) h)

theorem intChars_ne_nil (n : Int) : intChars n ≠ [] := fun h =>
  Nat.toDigits_ne_nil (List.append_eq_nil_iff.1 h).2

end Json

/-! ## Texts of scalars -/

namespace Scalar

/-- The kinds of scalars. -/
inductive Kind where
  | bool
  | int
  | float
  | text
  deriving DecidableEq

/-- The kind of a scalar. -/
def kind : Scalar → Kind
  | .bool _ => .bool
  | .int _ => .int
  | .float _ _ => .float
  | .text _ => .text

/-- The kind that a text tells: a string begins with a quote and a boolean with a letter, and of the
numbers only those that are not integers have a point or an exponent. -/
def readKind : List Char → Kind
  | '"' :: _ => .text
  | 't' :: _ => .bool
  | 'f' :: _ => .bool
  | cs => if '.' ∈ cs ∨ 'e' ∈ cs then .float else .int

theorem readKind_number {c : Char} (hc : c = '-' ∨ c.isDigit = true) (cs : List Char) :
    readKind (c :: cs) = if '.' ∈ c :: cs ∨ 'e' ∈ c :: cs then .float else .int := by
  have hne {d : Char} (hminus : '-' ≠ d) (hdigit : d.isDigit = false) : c ≠ d := by
    rintro rfl
    rcases hc with rfl | hc
    · exact hminus rfl
    · rw [hdigit] at hc
      cases hc
  rw [readKind.eq_def]
  split
  · next h => exact absurd (List.cons.inj h).1 (hne (by decide) rfl)
  · next h => exact absurd (List.cons.inj h).1 (hne (by decide) rfl)
  · next h => exact absurd (List.cons.inj h).1 (hne (by decide) rfl)
  · rfl

/-- The text of a scalar tells its kind. -/
theorem readKind_chars (s : Scalar) : readKind s.toJson.chars = s.kind := by
  cases s with
  | bool b => cases b <;> rfl
  | int n =>
    obtain ⟨c, cs, hc⟩ := List.exists_cons_of_ne_nil (Json.intChars_ne_nil n)
    have hmem : ∀ d ∈ c :: cs, d = '-' ∨ d.isDigit = true := fun d hd => Json.mem_intChars (hc ▸ hd)
    have hnone : ¬ ('.' ∈ c :: cs ∨ 'e' ∈ c :: cs) := by
      rintro (h | h)
      · exact absurd (hmem _ h) (by decide)
      · exact absurd (hmem _ h) (by decide)
    change readKind (Json.intChars n) = .int
    rw [hc, readKind_number (hmem c List.mem_cons_self), if_neg hnone]
  | float x finite =>
    obtain ⟨c, cs, hc, hdigit, hpoint⟩ := Json.numberLayout.exists_magnitudeChars x
    change readKind (Json.numberLayout.chars x) = .float
    rw [Json.numberLayout.chars_eq, hc]
    split
    · rw [List.singleton_append, readKind_number (.inl rfl),
        if_pos (hpoint.imp (fun h => List.mem_cons_of_mem _ (List.mem_cons_of_mem _ h))
          fun h => List.mem_cons_of_mem _ (List.mem_cons_of_mem _ h))]
    · rw [List.nil_append, readKind_number (.inr hdigit),
        if_pos (hpoint.imp (List.mem_cons_of_mem _) (List.mem_cons_of_mem _))]
  | text s => rfl

/-- **A scalar is told by its text.** -/
theorem chars_injective {s t : Scalar} (h : s.toJson.chars = t.toJson.chars) : s = t := by
  have hkind := congrArg readKind h
  rw [readKind_chars, readKind_chars] at hkind
  cases s with
  | bool b =>
    cases t <;> cases hkind
    next b' => cases b <;> cases b' <;> first | rfl | cases h
  | int n =>
    cases t <;> cases hkind
    next n' => rw [Json.intChars_injective h]
  | float x finite =>
    cases t <;> cases hkind
    next x' finite' =>
      obtain rfl := Json.numberLayout.chars_injective h
      rfl
  | text s =>
    cases t <;> cases hkind
    next s' => rw [Json.quotedChars_injective h]

end Scalar

/-! ## Keys -/

theorem joinKey?_eq (j : Json) : joinKey? j = j.toScalar?.map fun s => s.toJson.toText := by
  cases j <;> rfl

/-- **Two values match exactly when they are the same string, number or boolean.** -/
theorem joinKey?_eq_some_iff {j : Json} {s : Scalar} :
    joinKey? j = some s.toJson.toText ↔ j = s.toJson := by
  rw [joinKey?_eq, Option.map_eq_some_iff, ← Json.toScalar?_eq_some_iff]
  constructor
  · rintro ⟨t, ht, htext⟩
    rw [ht, Scalar.chars_injective (String.ofList_injective htext)]
  · exact fun h => ⟨s, h, rfl⟩

theorem joinKey?_toJson (s : Scalar) : joinKey? s.toJson = some s.toJson.toText :=
  joinKey?_eq_some_iff.2 rfl

/-- The key of a scalar tells its kind. -/
theorem readKind_of_joinKey? {s : Scalar} {key : String} (h : joinKey? s.toJson = some key) :
    Scalar.readKind key.toList = s.kind := by
  rw [joinKey?_toJson] at h
  obtain rfl := Option.some.inj h
  rw [Json.toText, String.toList_ofList, Scalar.readKind_chars]

/-- **A key identifies its value.** The values with a key are strings, numbers and booleans; two of
them have the same key exactly when they are the same value; and two of different kinds never share
one, whatever the characters of a string. -/
theorem joinKey?_identifies :
    (∀ j : Json, (∃ key, joinKey? j = some key) ↔ ∃ s : Scalar, j = s.toJson) ∧
      (∀ s t : Scalar, joinKey? s.toJson = joinKey? t.toJson ↔ s = t) ∧
      ∀ s t : Scalar, s.kind ≠ t.kind → joinKey? s.toJson ≠ joinKey? t.toJson := by
  refine ⟨fun j => ?_, fun s t => ?_, fun s t hkind hkey => ?_⟩
  · constructor
    · rintro ⟨key, hkey⟩
      rw [joinKey?_eq, Option.map_eq_some_iff] at hkey
      obtain ⟨s, hs, -⟩ := hkey
      exact ⟨s, Json.toScalar?_eq_some_iff.1 hs⟩
    · rintro ⟨s, rfl⟩
      exact ⟨_, joinKey?_toJson s⟩
  · constructor
    · intro hkey
      rw [joinKey?_toJson t, joinKey?_eq_some_iff] at hkey
      exact Scalar.chars_injective (congrArg Json.chars hkey)
    · rintro rfl
      rfl
  · rw [joinKey?_toJson t] at hkey
    exact hkind ((readKind_of_joinKey? hkey).symm.trans (readKind_of_joinKey? (joinKey?_toJson t)))

/-! ## Rows that join -/

/-- The string, number or boolean in a column of a row, if it holds one. -/
def scalarAt (column : String) (row : Row) : Option Scalar :=
  (Entries.get? column row).bind Json.toScalar?

theorem scalarAt_eq_some_iff {column : String} {row : Row} {s : Scalar} :
    scalarAt column row = some s ↔ Entries.get? column row = some s.toJson := by
  simp only [scalarAt, Option.bind_eq_some_iff, Json.toScalar?_eq_some_iff, exists_eq_right]

/-- A row joins to a row above it: the related column of the one holds the same string, number or
boolean as the owner column of the other. -/
def Relation.Joins (relation : Relation) (parent row : Row) : Prop :=
  ∃ s : Scalar, Entries.get? relation.ownerColumn parent = some s.toJson ∧
    Entries.get? relation.relatedColumn row = some s.toJson

namespace Relation

variable {relation : Relation} {parent row : Row}

theorem joins_iff : relation.Joins parent row ↔
    ∃ s ∈ scalarAt relation.ownerColumn parent, scalarAt relation.relatedColumn row = some s := by
  simp only [Joins, Option.mem_def, scalarAt_eq_some_iff]

instance : Decidable (relation.Joins parent row) := decidable_of_iff' _ joins_iff

/-- Only the columns that join the rows matter. -/
theorem joins_congr {parent' row' : Row}
    (hparent : Entries.get? relation.ownerColumn parent' = Entries.get? relation.ownerColumn parent)
    (hrow : Entries.get? relation.relatedColumn row' = Entries.get? relation.relatedColumn row) :
    relation.Joins parent' row' ↔ relation.Joins parent row := by
  rw [Joins, Joins, hparent, hrow]

/-- Nothing joins to a row without a string, number or boolean in the owner column. -/
theorem filter_joins_eq_nil (h : scalarAt relation.ownerColumn parent = none) (rows : List Row) :
    rows.filter (relation.Joins parent ·) = [] := by
  refine List.filter_eq_nil_iff.2 fun row _ hjoins => ?_
  obtain ⟨s, hs, -⟩ := joins_iff.1 (of_decide_eq_true hjoins)
  rw [h] at hs
  cases hs

end Relation

theorem rowKey?_eq_some_iff {column : String} {row : Row} {s : Scalar} :
    rowKey? column row = some s.toJson.toText ↔ Entries.get? column row = some s.toJson := by
  simp only [rowKey?, Option.bind_eq_some_iff, joinKey?_eq_some_iff, exists_eq_right]

theorem rowKey?_eq (column : String) (row : Row) :
    rowKey? column row = (scalarAt column row).map fun s => s.toJson.toText := by
  unfold rowKey? scalarAt
  cases Entries.get? column row with
  | none => rfl
  | some j => exact joinKey?_eq j

/-- **The rows that are matched by their texts are those that join**, each once and in order. -/
theorem matching_eq (relation : Relation) (rows : List Row) (parent : Row) :
    matching relation (.ofRows relation.relatedColumn rows) parent =
      rows.filter (relation.Joins parent ·) := by
  rw [matching_ofRows, rowKey?_eq]
  cases howner : scalarAt relation.ownerColumn parent with
  | none => exact (Relation.filter_joins_eq_nil howner rows).symm
  | some s =>
    refine List.filter_congr fun row _ => decide_eq_decide.2 ?_
    rw [rowKey?_eq_some_iff, Relation.joins_iff, howner, ← scalarAt_eq_some_iff]
    simp only [Option.mem_def, Option.some.injEq, exists_eq_left']

end RequestQuery
