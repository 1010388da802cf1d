/-!
# Dictionaries in key order

Lists of entries with text keys in strictly increasing order, by code point. That order is the one
in which dictionaries are walked and shown.

* `Entries.put`: entries with a value put at its key, in place of an earlier one.
* `Dict`: a dictionary; two with the same look-ups are the same dictionary (`Dict.ext_get?`).
* `NameSet`: a set of names, a dictionary that holds nothing at each.
-/

namespace RequestQuery

/-! ## Entries -/

namespace Entries

variable {α : Type}

/-- Put a value at a key, in place of an earlier one. -/
def put (key : String) (value : α) : List (String × α) → List (String × α)
  | [] => [(key, value)]
  | (k, v) :: rest =>
    if key < k then (key, value) :: (k, v) :: rest
    else if key = k then (key, value) :: rest
    else (k, v) :: put key value rest

/-- The value at a key. -/
def get? (key : String) (entries : List (String × α)) : Option α := entries.lookup key

/-- The keys stand in strictly increasing order. -/
def Ordered (entries : List (String × α)) : Prop := entries.Pairwise fun a b => a.1 < b.1

@[simp] theorem get?_nil (key : String) : get? key ([] : List (String × α)) = none := rfl

theorem get?_cons (key k : String) (v : α) (rest : List (String × α)) :
    get? key ((k, v) :: rest) = if key = k then some v else get? key rest := by
  by_cases h : key = k
  · simp [get?, h]
  · have hb : (key == k) = false := by simpa using h
    simp [get?, List.lookup_cons, h, hb]

/-- What was put is found. -/
theorem get?_put_self (key : String) (value : α) (entries : List (String × α)) :
    get? key (put key value entries) = some value := by
  induction entries with
  | nil => simp [put, get?_cons]
  | cons e rest ih =>
    obtain ⟨k, v⟩ := e
    rw [put]
    split
    · simp [get?_cons]
    · split
      · simp [get?_cons]
      · next h => simp [get?_cons, h, ih]

/-- The other keys are left alone. -/
theorem get?_put_of_ne {key other : String} (h : other ≠ key) (value : α)
    (entries : List (String × α)) : get? other (put key value entries) = get? other entries := by
  induction entries with
  | nil => simp [put, get?_cons, h]
  | cons e rest ih =>
    obtain ⟨k, v⟩ := e
    rw [put]
    split
    · simp [get?_cons, h]
    · split
      · next hk => subst hk; simp [get?_cons, h]
      · simp [get?_cons, ih]

theorem mem_put {key : String} {value : α} {e : String × α} {entries : List (String × α)}
    (h : e ∈ put key value entries) : e = (key, value) ∨ e ∈ entries := by
  induction entries with
  | nil => exact .inl (by simpa [put] using h)
  | cons e' rest ih =>
    obtain ⟨k, v⟩ := e'
    rw [put] at h
    split at h
    · simpa using h
    · split at h
      · rcases List.mem_cons.1 h with h | h
        · exact .inl h
        · exact .inr (List.mem_cons_of_mem _ h)
      · rcases List.mem_cons.1 h with h | h
        · exact .inr (h ▸ List.mem_cons_self)
        · exact (ih h).imp_right (List.mem_cons_of_mem _)

theorem lt_of_not_lt_of_ne {a b : String} (h : ¬ a < b) (hne : a ≠ b) : b < a :=
  String.not_le.1 fun hab => hne (String.le_antisymm hab (String.not_lt.1 h))

/-- Order is kept. -/
theorem ordered_put (key : String) (value : α) {entries : List (String × α)}
    (h : Ordered entries) : Ordered (put key value entries) := by
  induction entries with
  | nil => exact List.pairwise_singleton _ _
  | cons e rest ih =>
    obtain ⟨k, v⟩ := e
    have hk : ∀ e ∈ rest, k < e.1 := (List.pairwise_cons.1 h).1
    have hr : Ordered rest := (List.pairwise_cons.1 h).2
    rw [put]
    split
    · next hlt =>
      refine List.pairwise_cons.2 ⟨fun e he => ?_, h⟩
      rcases List.mem_cons.1 he with rfl | he
      · exact hlt
      · exact String.lt_trans hlt (hk e he)
    · split
      · next heq => subst heq; exact List.pairwise_cons.2 ⟨hk, hr⟩
      · next hlt hne =>
        refine List.pairwise_cons.2 ⟨fun e he => ?_, ih hr⟩
        rcases mem_put he with rfl | he
        · exact lt_of_not_lt_of_ne hlt hne
        · exact hk e he

theorem get?_eq_some_of_mem {entries : List (String × α)} (h : Ordered entries) {k : String}
    {v : α} (hm : (k, v) ∈ entries) : get? k entries = some v := by
  induction entries with
  | nil => cases hm
  | cons e rest ih =>
    obtain ⟨k', v'⟩ := e
    rw [get?_cons]
    rcases List.mem_cons.1 hm with h' | h'
    · obtain ⟨rfl, rfl⟩ := Prod.mk.injEq .. ▸ h'
      simp
    · have : k' < k := (List.pairwise_cons.1 h).1 _ h'
      rw [if_neg fun he => String.lt_irrefl k' (by simp [he] at this)]
      exact ih (List.pairwise_cons.1 h).2 h'

theorem mem_of_get?_eq_some {entries : List (String × α)} {k : String} {v : α}
    (h : get? k entries = some v) : (k, v) ∈ entries := by
  induction entries with
  | nil => cases h
  | cons e rest ih =>
    obtain ⟨k', v'⟩ := e
    rw [get?_cons] at h
    split at h
    · next hk => cases h; subst hk; exact List.mem_cons_self
    · exact List.mem_cons_of_mem _ (ih h)

theorem get?_eq_none_of_lt {key : String} {entries : List (String × α)}
    (h : ∀ e ∈ entries, key < e.1) : get? key entries = none := by
  cases hg : get? key entries with
  | none => rfl
  | some v => exact absurd (h _ (mem_of_get?_eq_some hg)) (String.lt_irrefl key)

/-- Ordered entries are determined by what is found in them. -/
theorem eq_of_get?_eq {l₁ l₂ : List (String × α)} (h₁ : Ordered l₁) (h₂ : Ordered l₂)
    (h : ∀ key, get? key l₁ = get? key l₂) : l₁ = l₂ := by
  induction l₁ generalizing l₂ with
  | nil =>
    cases l₂ with
    | nil => rfl
    | cons e rest =>
      obtain ⟨k, v⟩ := e
      have := h k
      simp [get?_cons] at this
  | cons e₁ r₁ ih =>
    obtain ⟨k₁, v₁⟩ := e₁
    cases l₂ with
    | nil => have := h k₁; simp [get?_cons] at this
    | cons e₂ r₂ =>
      obtain ⟨k₂, v₂⟩ := e₂
      obtain ⟨hk₁, hr₁⟩ := List.pairwise_cons.1 h₁
      obtain ⟨hk₂, hr₂⟩ := List.pairwise_cons.1 h₂
      have hk : k₁ = k₂ := by
        have hm₁ : (k₁, v₁) ∈ (k₂, v₂) :: r₂ :=
          mem_of_get?_eq_some (by rw [← h k₁, get?_cons, if_pos rfl])
        have hm₂ : (k₂, v₂) ∈ (k₁, v₁) :: r₁ :=
          mem_of_get?_eq_some (by rw [h k₂, get?_cons, if_pos rfl])
        rcases List.mem_cons.1 hm₁ with he | hm₁
        · exact (Prod.mk.inj he).1
        · rcases List.mem_cons.1 hm₂ with he | hm₂
          · exact (Prod.mk.inj he).1.symm
          · exact absurd (String.lt_trans (hk₁ _ hm₂) (hk₂ _ hm₁)) (String.lt_irrefl k₁)
      subst hk
      have hv : v₁ = v₂ := by simpa [get?_cons] using h k₁
      subst hv
      congr 1
      refine ih hr₁ hr₂ fun key => ?_
      by_cases hkey : key = k₁
      · rw [hkey, get?_eq_none_of_lt hk₁, get?_eq_none_of_lt hk₂]
      · simpa [get?_cons, hkey] using h key

theorem ordered_filter (keep : String × α → Bool) {entries : List (String × α)}
    (h : Ordered entries) : Ordered (entries.filter keep) := List.Pairwise.filter keep h

/-- Entries that are kept by their keys. -/
theorem get?_filter (keep : String → Bool) (key : String) (entries : List (String × α)) :
    get? key (entries.filter fun e => keep e.1) = if keep key then get? key entries else none := by
  induction entries with
  | nil => exact (ite_self none).symm
  | cons e rest ih =>
    obtain ⟨k, v⟩ := e
    rw [List.filter_cons, get?_cons]
    by_cases hkey : key = k
    · subst hkey
      cases hkeep : keep key with
      | true => simp only [get?_cons, if_true]
      | false =>
        rw [hkeep] at ih
        exact ih
    · rw [if_neg hkey]
      split
      · rw [get?_cons, if_neg hkey, ih]
      · exact ih

theorem ordered_map {β : Type} (f : α → β) {entries : List (String × α)} (h : Ordered entries) :
    Ordered (entries.map fun e => (e.1, f e.2)) :=
  List.pairwise_map.2 h

theorem get?_map {β : Type} (f : α → β) (key : String) (entries : List (String × α)) :
    get? key (entries.map fun e => (e.1, f e.2)) = (get? key entries).map f := by
  induction entries with
  | nil => rfl
  | cons e rest ih =>
    obtain ⟨k, v⟩ := e
    rw [List.map_cons, get?_cons, get?_cons, ih]
    split <;> rfl

end Entries

/-! ## Dictionaries -/

/-- Entries whose keys stand in strictly increasing order. -/
structure Dict (α : Type) where
  entries : List (String × α)
  ordered : Entries.Ordered entries

namespace Dict

variable {α : Type}

/-- No entry. -/
def empty : Dict α := ⟨[], List.Pairwise.nil⟩

instance : Inhabited (Dict α) := ⟨empty⟩

/-- The value at a key. -/
def get? (d : Dict α) (key : String) : Option α := Entries.get? key d.entries

/-- Whether there is an entry at a key. -/
def contains (d : Dict α) (key : String) : Bool := (d.get? key).isSome

/-- Put a value at a key, in place of an earlier one. -/
def insert (d : Dict α) (key : String) (value : α) : Dict α :=
  ⟨Entries.put key value d.entries, Entries.ordered_put key value d.ordered⟩

/-- The keys, in order. -/
def keys (d : Dict α) : List String := d.entries.map Prod.fst

/-- The values, in the order of their keys. -/
def values (d : Dict α) : List α := d.entries.map Prod.snd

/-- The number of entries. -/
def size (d : Dict α) : Nat := d.entries.length

/-- The dictionary of a list of entries; of two with one key the later one stays. -/
def ofList (entries : List (String × α)) : Dict α :=
  entries.foldl (fun d e => d.insert e.1 e.2) empty

@[simp] theorem get?_empty (key : String) : (empty : Dict α).get? key = none := rfl

@[simp] theorem get?_insert_self (d : Dict α) (key : String) (value : α) :
    (d.insert key value).get? key = some value := Entries.get?_put_self ..

theorem get?_insert_of_ne (d : Dict α) {key other : String} (h : other ≠ key) (value : α) :
    (d.insert key value).get? other = d.get? other := Entries.get?_put_of_ne h ..

theorem contains_insert (d : Dict α) (key other : String) (value : α) :
    (d.insert key value).contains other = (other == key || d.contains other) := by
  by_cases h : other = key
  · subst h; simp [contains]
  · simp [contains, get?_insert_of_ne _ h, h]

/-- Dictionaries are equal when all look-ups are. -/
theorem ext_get? {d₁ d₂ : Dict α} (h : ∀ key, d₁.get? key = d₂.get? key) : d₁ = d₂ := by
  obtain ⟨l₁, o₁⟩ := d₁
  obtain ⟨l₂, o₂⟩ := d₂
  cases Entries.eq_of_get?_eq o₁ o₂ h
  rfl

theorem mem_entries_iff (d : Dict α) (k : String) (v : α) :
    (k, v) ∈ d.entries ↔ d.get? k = some v :=
  ⟨Entries.get?_eq_some_of_mem d.ordered, Entries.mem_of_get?_eq_some⟩

theorem mem_values_iff (d : Dict α) (v : α) : v ∈ d.values ↔ ∃ k, d.get? k = some v := by
  simp [values, ← mem_entries_iff]

end Dict

/-! ## Sets of names -/

/-- A set of names, in order. -/
abbrev NameSet := Dict Unit

namespace NameSet

/-- Add a name. -/
def insert (s : NameSet) (name : String) : NameSet := Dict.insert s name ()

/-- Add each name of a list. -/
def insertAll (s : NameSet) (names : List String) : NameSet := names.foldl insert s

/-- The set of the names in a list. -/
def ofList (names : List String) : NameSet := insertAll Dict.empty names

/-- The names, in order. -/
def toList (s : NameSet) : List String := Dict.keys s

theorem contains_insert (s : NameSet) (name other : String) :
    (s.insert name).contains other = (other == name || s.contains other) :=
  Dict.contains_insert s name other ()

theorem contains_insertAll (s : NameSet) (names : List String) (name : String) :
    (s.insertAll names).contains name = (decide (name ∈ names) || s.contains name) := by
  induction names generalizing s with
  | nil => simp [insertAll]
  | cons first rest ih =>
    rw [insertAll, List.foldl_cons]
    rw [show Dict.contains (List.foldl insert (s.insert first) rest) name = _ from ih _]
    rw [contains_insert]
    by_cases h : name = first
    · simp [h]
    · have hb : (name == first) = false := by simpa using h
      simp [h, hb]

/-- A set holds the names that it was made of. -/
@[simp] theorem contains_ofList (names : List String) (name : String) :
    (ofList names).contains name = decide (name ∈ names) := by
  rw [ofList, contains_insertAll]
  simp [Dict.contains]

theorem contains_iff_mem_toList (s : NameSet) (name : String) :
    s.contains name = true ↔ name ∈ s.toList := by
  simp only [Dict.contains, Option.isSome_iff_exists, toList, Dict.keys, List.mem_map]
  constructor
  · rintro ⟨u, hu⟩
    exact ⟨(name, u), (Dict.mem_entries_iff s name u).2 hu, rfl⟩
  · rintro ⟨⟨k, u⟩, hm, rfl⟩
    exact ⟨u, (Dict.mem_entries_iff s k u).1 hm⟩

end NameSet

end RequestQuery
