/-!
# Splitting and joining texts

* `split sep s`: the pieces of `s` between occurrences of `sep`; there is always at least one.
* `splitFirst? sep s`, `splitLast? sep s`: what stands before and after the first and the last
  `sep`.
* `join sep pieces`: the pieces with `sep` between them.
* `takeWhile_append_of_head`, `dropWhile_append_of_head`: a run of characters of one class.
-/

namespace RequestQuery.Text

/-- The pieces between occurrences of `sep`, always at least one. -/
def splitChars (sep : Char) (cs : List Char) : List (List Char) :=
  cs.foldr
    (fun c pieces =>
      if c = sep then [] :: pieces
      else
        match pieces with
        | [] => [[c]]
        | piece :: rest => (c :: piece) :: rest)
    [[]]

@[simp] theorem splitChars_nil (sep : Char) : splitChars sep [] = [[]] := rfl

theorem splitChars_cons_sep (sep : Char) (cs : List Char) :
    splitChars sep (sep :: cs) = [] :: splitChars sep cs := by
  simp [splitChars]

theorem splitChars_ne_nil (sep : Char) (cs : List Char) : splitChars sep cs ≠ [] := by
  cases cs with
  | nil => simp
  | cons c cs =>
    simp only [splitChars, List.foldr_cons]
    split
    · simp
    · split <;> simp

theorem splitChars_cons_of_ne {sep c : Char} (h : c ≠ sep) (cs : List Char) :
    ∃ piece rest, splitChars sep cs = piece :: rest ∧
      splitChars sep (c :: cs) = (c :: piece) :: rest := by
  cases hs : splitChars sep cs with
  | nil => exact absurd hs (splitChars_ne_nil sep cs)
  | cons piece rest =>
    refine ⟨piece, rest, rfl, ?_⟩
    rw [splitChars, List.foldr_cons, if_neg h]
    change (match splitChars sep cs with | [] => [[c]] | piece :: rest => (c :: piece) :: rest) = _
    rw [hs]

/-- No piece contains the separator. -/
theorem not_mem_of_mem_splitChars {sep : Char} {cs piece : List Char}
    (h : piece ∈ splitChars sep cs) : sep ∉ piece := by
  induction cs generalizing piece with
  | nil => simp_all
  | cons c cs ih =>
    by_cases hc : c = sep
    · subst hc
      rw [splitChars_cons_sep] at h
      rcases List.mem_cons.1 h with rfl | h
      · exact List.not_mem_nil
      · exact ih h
    · obtain ⟨first, rest, hs, hcons⟩ := splitChars_cons_of_ne hc cs
      rw [hs] at ih
      rw [hcons] at h
      rcases List.mem_cons.1 h with rfl | h
      · have := ih List.mem_cons_self
        simp only [List.mem_cons, not_or]
        exact ⟨fun he => hc he.symm, this⟩
      · exact ih (List.mem_cons_of_mem _ h)

/-- At a separator a text is split. -/
theorem splitChars_append_sep (sep : Char) (cs ds : List Char) :
    splitChars sep (cs ++ sep :: ds) = splitChars sep cs ++ splitChars sep ds := by
  induction cs with
  | nil => exact splitChars_cons_sep sep ds
  | cons c cs ih =>
    by_cases hc : c = sep
    · subst hc
      rw [List.cons_append, splitChars_cons_sep, splitChars_cons_sep, ih, List.cons_append]
    · obtain ⟨piece, rest, hcs, hcons⟩ := splitChars_cons_of_ne hc cs
      obtain ⟨piece', rest', hboth, hconsBoth⟩ := splitChars_cons_of_ne hc (cs ++ sep :: ds)
      rw [ih, hcs, List.cons_append] at hboth
      obtain ⟨rfl, rfl⟩ := List.cons.inj hboth
      rw [List.cons_append, hconsBoth, hcons, List.cons_append]

/-- A text without the separator is one piece. -/
theorem splitChars_of_notMem {sep : Char} {cs : List Char} (h : sep ∉ cs) :
    splitChars sep cs = [cs] := by
  induction cs with
  | nil => rfl
  | cons c cs ih =>
    rw [List.mem_cons, not_or] at h
    obtain ⟨piece, rest, hs, hcons⟩ := splitChars_cons_of_ne (Ne.symm h.1) cs
    rw [ih h.2] at hs
    cases hs
    exact hcons

/-- The pieces with the separator between them are the text that was split. -/
theorem intercalate_splitChars (sep : Char) (cs : List Char) :
    [sep].intercalate (splitChars sep cs) = cs := by
  induction cs with
  | nil => rfl
  | cons c cs ih =>
    by_cases hc : c = sep
    · subst hc
      rw [splitChars_cons_sep]
      cases hs : splitChars c cs with
      | nil => exact absurd hs (splitChars_ne_nil c cs)
      | cons first rest =>
        rw [hs] at ih
        simpa [List.intercalate, List.intersperse] using ih
    · obtain ⟨first, rest, hs, hcons⟩ := splitChars_cons_of_ne hc cs
      rw [hs] at ih
      rw [hcons]
      cases rest <;> simp_all [List.intercalate, List.intersperse]

/-! ## Runs of a class of characters -/

/-- The characters of a class at the front end where one of another class follows. -/
theorem takeWhile_append_of_head {p : Char → Bool} {cs rest : List Char}
    (hcs : ∀ c ∈ cs, p c = true) (hrest : ∀ c ∈ rest.head?, p c = false) :
    (cs ++ rest).takeWhile p = cs := by
  rw [List.takeWhile_append_of_pos hcs]
  match rest with
  | [] => exact List.append_nil cs
  | c :: rest =>
    rw [List.takeWhile_cons_of_neg (by rw [hrest c rfl]; exact Bool.false_ne_true),
      List.append_nil]

/-- What follows the characters of a class at the front. -/
theorem dropWhile_append_of_head {p : Char → Bool} {cs rest : List Char}
    (hcs : ∀ c ∈ cs, p c = true) (hrest : ∀ c ∈ rest.head?, p c = false) :
    (cs ++ rest).dropWhile p = rest := by
  rw [List.dropWhile_append_of_pos hcs]
  match rest with
  | [] => rfl
  | c :: rest => rw [List.dropWhile_cons_of_neg (by rw [hrest c rfl]; exact Bool.false_ne_true)]

/-! ## Texts -/

/-- The pieces of a text between occurrences of `sep`. -/
def split (sep : Char) (s : String) : List String :=
  (splitChars sep s.toList).map String.ofList

/-- The pieces with `sep` between them. -/
def join (sep : String) (pieces : List String) : String := sep.intercalate pieces

/-- Pieces that are joined are split one by one. -/
theorem split_join (sep : Char) {pieces : List String} (h : pieces ≠ []) :
    split sep (join (String.singleton sep) pieces) = pieces.flatMap (split sep) := by
  induction pieces with
  | nil => exact absurd rfl h
  | cons piece rest ih =>
    cases rest with
    | nil =>
      rw [List.flatMap_singleton]
      exact congrArg (split sep) String.intercalate_singleton
    | cons next rest =>
      have hjoin : join (String.singleton sep) (piece :: next :: rest) =
          piece ++ String.singleton sep ++ join (String.singleton sep) (next :: rest) :=
        String.intercalate_cons_cons
      rw [List.flatMap_cons, ← ih (List.cons_ne_nil next rest), hjoin]
      simp only [split, String.toList_append, String.toList_singleton, List.append_assoc,
        List.singleton_append, splitChars_append_sep, List.map_append]

theorem split_of_notMem {sep : Char} {s : String} (h : sep ∉ s.toList) : split sep s = [s] := by
  rw [split, splitChars_of_notMem h, List.map_singleton, String.ofList_toList]

theorem split_ne_nil (sep : Char) (s : String) : split sep s ≠ [] :=
  mt List.map_eq_nil_iff.1 (splitChars_ne_nil sep s.toList)

theorem notMem_of_mem_split {sep : Char} {s piece : String} (h : piece ∈ split sep s) :
    sep ∉ piece.toList := by
  obtain ⟨cs, hcs, rfl⟩ := List.mem_map.1 h
  rw [String.toList_ofList]
  exact not_mem_of_mem_splitChars hcs

/-- Pieces without the separator are split as they were joined. -/
theorem split_join_of_notMem {sep : Char} {pieces : List String} (h : pieces ≠ [])
    (hpieces : ∀ piece ∈ pieces, sep ∉ piece.toList) :
    split sep (join (String.singleton sep) pieces) = pieces := by
  have hsingle : pieces.map (split sep) = pieces.map fun piece => [piece] :=
    List.map_congr_left fun piece hpiece => split_of_notMem (hpieces piece hpiece)
  rw [split_join sep h, List.flatMap_def, hsingle, ← List.flatMap_def, List.flatMap_singleton']

/-- A text that is split and joined again is the same. -/
theorem join_split (sep : Char) (s : String) : join (String.singleton sep) (split sep s) = s := by
  refine String.toList_inj.1 (String.toList_intercalate.trans ?_)
  rw [String.toList_singleton, split, List.map_map]
  simpa only [Function.comp_def, String.toList_ofList, List.map_id'] using
    intercalate_splitChars sep s.toList

/-- What stands before and after the first `sep`. -/
def splitFirst? (sep : Char) (s : String) : Option (String × String) :=
  match s.toList.span (· ≠ sep) with
  | (_, []) => none
  | (before, _ :: after) => some (String.ofList before, String.ofList after)

/-- What stands before and after the last `sep`. -/
def splitLast? (sep : Char) (s : String) : Option (String × String) :=
  match s.toList.reverse.span (· ≠ sep) with
  | (_, []) => none
  | (after, _ :: before) => some (String.ofList before.reverse, String.ofList after.reverse)

end RequestQuery.Text
