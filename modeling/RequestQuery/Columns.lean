/-!
# Lists of columns without repeats

* `Columns.add`, `Columns.addAll`: append columns that are not there yet.
* `Columns.distinct`: a list without its repeats, in the order of first appearance
  (`distinct_eq_eraseDups`).
-/

namespace RequestQuery.Columns

/-- Append a column that is not there yet. -/
def add (columns : List String) (column : String) : List String :=
  if column ∈ columns then columns else columns ++ [column]

/-- Append the columns that are not there yet. -/
def addAll (columns more : List String) : List String := more.foldl add columns

/-- The columns without repeats. -/
def distinct (columns : List String) : List String := addAll [] columns

theorem mem_add {columns : List String} {column c : String} :
    c ∈ add columns column ↔ c ∈ columns ∨ c = column := by
  unfold add
  split
  · next h => exact ⟨.inl, fun h' => h'.elim id fun e => e ▸ h⟩
  · simp

theorem mem_addAll {columns more : List String} {c : String} :
    c ∈ addAll columns more ↔ c ∈ columns ∨ c ∈ more := by
  induction more generalizing columns with
  | nil => simp [addAll]
  | cons column more ih =>
    rw [addAll, List.foldl_cons]
    rw [show c ∈ List.foldl add (add columns column) more ↔ _ from ih]
    rw [mem_add, List.mem_cons, or_assoc]

@[simp] theorem mem_distinct {columns : List String} {c : String} :
    c ∈ distinct columns ↔ c ∈ columns := by
  simp [distinct, mem_addAll]

theorem length_add_le (columns : List String) (column : String) :
    (add columns column).length ≤ columns.length + 1 := by
  unfold add
  split
  · exact Nat.le_succ _
  · exact Nat.le_of_eq List.length_append

theorem nodup_add {columns : List String} (h : columns.Nodup) (column : String) :
    (add columns column).Nodup := by
  unfold add
  split
  · exact h
  · next hn =>
    refine List.nodup_append.2 ⟨h, List.pairwise_singleton .., fun a ha b hb => ?_⟩
    rw [List.mem_singleton.1 hb]
    exact fun e => hn (e ▸ ha)

theorem nodup_addAll {columns : List String} (h : columns.Nodup) (more : List String) :
    (addAll columns more).Nodup := by
  induction more generalizing columns with
  | nil => exact h
  | cons column more ih => exact ih (nodup_add h column)

theorem nodup_distinct (columns : List String) : (distinct columns).Nodup :=
  nodup_addAll List.Pairwise.nil columns

/-- What is appended are the columns that are not there yet, each where it appears first. -/
theorem addAll_eq (columns more : List String) :
    addAll columns more = columns ++ (more.filter (!columns.contains ·)).eraseDups := by
  induction more generalizing columns with
  | nil => exact (List.append_nil columns).symm
  | cons column more ih =>
    rw [addAll, List.foldl_cons]
    rw [show List.foldl add (add columns column) more = _ from ih _]
    by_cases hc : column ∈ columns
    · rw [add, if_pos hc, List.filter_cons_of_neg (by simpa using hc)]
    · have hrest : (more.filter fun c => !(columns ++ [column]).contains c) =
          (more.filter (!columns.contains ·)).filter (fun c => !c == column) := by
        rw [List.filter_filter]
        refine List.filter_congr fun c _ => ?_
        simp only [List.contains_append, List.contains_cons, List.contains_nil, Bool.or_false,
          Bool.not_or, Bool.and_comm]
      rw [add, if_neg hc, List.filter_cons_of_pos (by simpa using hc), List.eraseDups_cons, hrest,
        List.append_assoc, List.singleton_append]

/-- A list without its repeats keeps the first of each. -/
theorem distinct_eq_eraseDups (columns : List String) : distinct columns = columns.eraseDups := by
  have hall : (columns.filter fun c => !([] : List String).contains c) = columns :=
    List.filter_eq_self.2 fun _ _ => rfl
  rw [distinct, addAll_eq, List.nil_append, hall]

end RequestQuery.Columns
