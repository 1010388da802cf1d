/-!
# Blank characters and trimming

`isBlank` is the Unicode property White_Space. Option values are trimmed by it at both ends, so a
no-break space or an ideographic space around a value is dropped as a plain space is.

* `trim`, `trimStart`: a text without its leading and trailing blanks, and without the leading ones.
-/

namespace RequestQuery.Text

/-- The Unicode property White_Space. -/
def isBlank (c : Char) : Bool :=
  let n := c.toNat
  (9 ≤ n && n ≤ 13) || n == 0x20 || n == 0x85 || n == 0xA0 || n == 0x1680
    || (0x2000 ≤ n && n ≤ 0x200A) || n == 0x2028 || n == 0x2029 || n == 0x202F || n == 0x205F
    || n == 0x3000

/-- Every blank that core knows of is blank. -/
theorem isBlank_of_isWhitespace {c : Char} (h : c.isWhitespace = true) : isBlank c = true := by
  simp only [Char.isWhitespace, Bool.or_eq_true, decide_eq_true_eq] at h
  rcases h with ((rfl | rfl) | rfl) | rfl <;> decide

/-- The characters left after the blanks at the front. -/
def dropBlanks (cs : List Char) : List Char := cs.dropWhile isBlank

/-- The characters left after the blanks at both ends. -/
def trimChars (cs : List Char) : List Char := (dropBlanks (dropBlanks cs).reverse).reverse

/-- Blanks at the front are passed over. -/
theorem dropBlanks_append {before : List Char} (h : ∀ c ∈ before, isBlank c = true)
    (rest : List Char) : dropBlanks (before ++ rest) = dropBlanks rest :=
  List.dropWhile_append_of_pos h

theorem dropBlanks_eq_self {cs : List Char} (h : ∀ c ∈ cs.head?, isBlank c = false) :
    dropBlanks cs = cs := by
  cases cs with
  | nil => rfl
  | cons c cs => exact List.dropWhile_cons_of_neg (Bool.eq_false_iff.1 (h c rfl))

theorem exists_eq_append_dropBlanks (cs : List Char) :
    ∃ before : List Char, (∀ c ∈ before, isBlank c = true) ∧ cs = before ++ dropBlanks cs :=
  ⟨cs.takeWhile isBlank, List.all_eq_true.1 List.all_takeWhile,
    List.takeWhile_append_dropWhile.symm⟩

/-- What stands between blanks is left, if it has none at its ends. -/
theorem trimChars_append {before core after : List Char} (hbefore : ∀ c ∈ before, isBlank c = true)
    (hafter : ∀ c ∈ after, isBlank c = true) (hfirst : ∀ c ∈ core.head?, isBlank c = false)
    (hlast : ∀ c ∈ core.getLast?, isBlank c = false) (hne : core ≠ []) :
    trimChars (before ++ core ++ after) = core := by
  have hfirst' : ∀ c ∈ (core ++ after).head?, isBlank c = false := by
    cases core with
    | nil => exact absurd rfl hne
    | cons c cs => exact hfirst
  have hlast' : ∀ c ∈ core.reverse.head?, isBlank c = false := by
    rwa [List.head?_reverse]
  have hafter' : ∀ c ∈ after.reverse, isBlank c = true := fun c hc =>
    hafter c (List.mem_reverse.1 hc)
  rw [trimChars, List.append_assoc, dropBlanks_append hbefore, dropBlanks_eq_self hfirst',
    List.reverse_append, dropBlanks_append hafter', dropBlanks_eq_self hlast',
    List.reverse_reverse]

/-- What stands between blanks is left, if there is none in it. -/
theorem trimChars_append_of_forall {before core after : List Char}
    (hbefore : ∀ c ∈ before, isBlank c = true) (hafter : ∀ c ∈ after, isBlank c = true)
    (hcore : ∀ c ∈ core, isBlank c = false) (hne : core ≠ []) :
    trimChars (before ++ core ++ after) = core :=
  trimChars_append hbefore hafter (fun c hc => hcore c (List.mem_of_mem_head? hc))
    (fun c hc => hcore c (List.mem_of_mem_getLast? hc)) hne

/-- A text is its trimmed part between blanks. -/
theorem exists_eq_append_trimChars (cs : List Char) : ∃ before after : List Char,
    (∀ c ∈ before, isBlank c = true) ∧ (∀ c ∈ after, isBlank c = true) ∧
      cs = before ++ trimChars cs ++ after := by
  obtain ⟨before, hbefore, hcs⟩ := exists_eq_append_dropBlanks cs
  obtain ⟨after, hafter, hrest⟩ := exists_eq_append_dropBlanks (dropBlanks cs).reverse
  have hrest' : dropBlanks cs = trimChars cs ++ after.reverse := by
    rw [trimChars, ← List.reverse_append, ← hrest, List.reverse_reverse]
  refine ⟨before, after.reverse, hbefore, fun c hc => hafter c (List.mem_reverse.1 hc), ?_⟩
  rw [List.append_assoc, ← hrest', ← hcs]

theorem mem_of_mem_trimChars {c : Char} {cs : List Char} (h : c ∈ trimChars cs) : c ∈ cs := by
  obtain ⟨before, after, -, -, hcs⟩ := exists_eq_append_trimChars cs
  rw [hcs]
  exact List.mem_append_left _ (List.mem_append_right _ h)

/-- A text without the blanks at its front. -/
def trimStart (s : String) : String := String.ofList (dropBlanks s.toList)

/-- A text without the blanks at its ends. -/
def trim (s : String) : String := String.ofList (trimChars s.toList)

@[simp] theorem toList_trim (s : String) : (trim s).toList = trimChars s.toList := by
  simp [trim]

@[simp] theorem toList_trimStart (s : String) : (trimStart s).toList = dropBlanks s.toList := by
  simp [trimStart]

end RequestQuery.Text
