import RequestQuery.Proofs.TokenSpans

/-!
# Spelled tokens

The spelling of a token makes that token (`spells_spell`): a word by its characters, a quoted text
with its quotes doubled, and an integer with its sign, the least one among them. So tokens with
blanks between them are read back (`scanFrom_spellAll`), by induction on their number.
-/

namespace RequestQuery.Filter

/-! ## Tokens that can be read back -/

/-- A name as a filter text can have it: an ASCII letter or an underscore, then letters, digits and
underscores. -/
def IsName (s : String) : Prop :=
  ∃ c cs, s.toList = c :: cs ∧ Ascii.isWordStart c = true ∧ ∀ d ∈ cs, Ascii.isWordChar d = true

/-- A word of letters is a name. -/
theorem isName_of_letters {s : String} {c : Char} {cs : List Char} (hs : s.toList = c :: cs)
    (h : (c :: cs).all Char.isAlpha = true) : IsName s := by
  rw [List.all_eq_true] at h
  refine ⟨c, cs, hs, ?_, fun d hd => ?_⟩
  · rw [Ascii.isWordStart, h c List.mem_cons_self, Bool.true_or]
  · rw [Ascii.isWordChar, Char.isAlphanum, h d (List.mem_cons_of_mem _ hd), Bool.true_or,
      Bool.true_or]

/-- A token that is read back as it is spelled. -/
def Kind.Legible : Kind → Prop
  | .word s => IsName s
  | .decimal _ => False
  | _ => True

/-! ## Reading tokens back -/

/-- An integer is spelled by its sign and its digits. -/
theorem spells_int (n : Int64) : Spells (.int n) (Kind.int n).spell := by
  have hvalue : Nat.ofDigitChars 10 (Nat.toDigits 10 n.toInt.natAbs) 0 = n.toInt.natAbs :=
    Nat.ofDigitChars_ten_toDigits
  have hsigned : (if decide (n.toInt < 0) then -(n.toInt.natAbs : Int) else n.toInt.natAbs) =
      n.toInt := by
    by_cases h : n.toInt < 0
    · rw [if_pos (decide_eq_true h)]
      omega
    · rw [if_neg (by simpa using h)]
      omega
  have hnumber : Spells (.int n) (signChars (decide (n.toInt < 0)) ++
      (Nat.toDigits 10 n.toInt.natAbs ++ pointed [])) := by
    refine .number Nat.toDigits_ne_nil
      (fun d hd => Nat.isDigit_of_mem_toDigits (by decide) (by decide) hd) nofun ?_
    simp only [numberKind, List.isEmpty_nil, if_true, hvalue, hsigned, Decimal.toInt64?_toInt]
  simpa [Kind.spell, Json.intChars, signChars, pointed] using hnumber

/-- **The spelling of a token makes that token.** -/
theorem spells_spell {k : Kind} (hk : k.Legible) : Spells k k.spell := by
  cases k with
  | word s =>
    obtain ⟨c, cs, hs, hc, hcs⟩ := hk
    have hword := Spells.word hc hcs
    rwa [← hs, String.ofList_toList] at hword
  | text s =>
    have htext := Spells.text s.toList
    rwa [String.ofList_toList] at htext
  | int n => exact spells_int n
  | decimal x => exact absurd hk id
  | openParen => exact .openParen
  | closeParen => exact .closeParen
  | comma => exact .comma

/-- **Tokens with blanks between them are read back.** -/
theorem scanFrom_spellAll {ks : List Kind} (hks : ∀ k ∈ ks, k.Legible) (start : Nat) :
    ∃ tokens, scanFrom start (spellAll ks) = .ok tokens ∧ tokens.map (·.kind) = ks := by
  induction ks generalizing start with
  | nil => exact ⟨[], by rw [spellAll, List.map_nil, List.intercalate_nil, scanFrom], rfl⟩
  | cons k ks ih =>
    have hspells := spells_spell (hks k List.mem_cons_self)
    cases ks with
    | nil =>
      have hscan := scanFrom_of_spells hspells k.ends_nil start
      rw [List.append_nil, scanFrom] at hscan
      exact ⟨_, by rw [spellAll, List.map_singleton, List.intercalate_singleton, hscan]; rfl, rfl⟩
    | cons k' ks =>
      have hsplit : spellAll (k :: k' :: ks) = k.spell ++ ' ' :: spellAll (k' :: ks) := by
        rw [spellAll, List.map_cons, List.map_cons, List.intercalate_cons_cons, spellAll,
          List.map_cons, List.append_assoc, List.singleton_append]
      obtain ⟨tokens, htokens, hkinds⟩ :=
        ih (fun k hk => hks k (List.mem_cons_of_mem _ hk)) (start + Utf8.widthOf k.spell + 1)
      refine ⟨⟨k, start, start + Utf8.widthOf k.spell⟩ :: tokens, ?_,
        by rw [List.map_cons, hkinds]⟩
      rw [hsplit, scanFrom_of_spells hspells (k.ends_gap rfl _), scanFrom_gap _ rfl, htokens]
      rfl

end RequestQuery.Filter
