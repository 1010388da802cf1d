import RequestQuery.Proofs.TokenGrammar

/-!
# The spans of tokens

The tokens of a filter tile its text: it is made of blanks and of their spans (`Tiling`), at the
octets where they say that they stand, and a text that is made so is scanned into those tokens
(`scanFrom_eq_ok_iff`).

* `Tiles`, `Tiling.tiles`: what this says about each token and each character.
* `Tiling.replace_gap`: blanks in place of others leave the kinds of the tokens alone.
-/

namespace RequestQuery.Filter

open Fallible Utf8

/-! ## Tilings -/

/-- `Tiling start cs tokens`: the text `cs`, which begins at the octet `start`, is made of blanks
and of the spans of `tokens`. -/
inductive Tiling : Nat → List Char → List Token → Prop
  | nil (start : Nat) : Tiling start [] []
  | gap {start : Nat} {c : Char} {cs : List Char} {tokens : List Token} (blank : isGap c = true)
      (rest : Tiling (start + 1) cs tokens) : Tiling start (c :: cs) tokens
  | token {start : Nat} {k : Kind} {span rest : List Char} {tokens : List Token}
      (spells : Spells k span) (ends : k.Ends rest)
      (more : Tiling (start + widthOf span) rest tokens) :
      Tiling start (span ++ rest) (⟨k, start, start + widthOf span⟩ :: tokens)

theorem scanFrom_gap (start : Nat) {c : Char} (h : isGap c = true) (cs : List Char) :
    scanFrom start (c :: cs) = scanFrom (start + 1) cs := by
  rw [scanFrom, if_pos h]

/-- A token that is spelled at the front is the first of the tokens. -/
theorem scanFrom_of_spells {k : Kind} {span rest : List Char} (h : Spells k span)
    (hrest : k.Ends rest) (start : Nat) : scanFrom start (span ++ rest) =
      (scanFrom (start + widthOf span) rest).map (⟨k, start, start + widthOf span⟩ :: ·) := by
  obtain ⟨c, cs, hsplit, hgap, t, ht, rfl, rfl⟩ := scanToken_of_spells h hrest start
  obtain ⟨span', -, hsplit', hwidth, -⟩ := scanToken_eq_ok ht
  obtain rfl : span = span' := List.append_cancel_right (hsplit.trans hsplit')
  rw [hsplit, scanFrom, if_neg (by simp [hgap]), ht, ← hwidth]
  change (scanFrom (start + t.width) t.rest >>= fun more => .ok (_ :: more)) = _
  cases scanFrom (start + t.width) t.rest <;> rfl

/-- **A text is scanned into tokens exactly when it is tiled by blanks and their spans.** -/
theorem scanFrom_eq_ok_iff {start : Nat} {cs : List Char} {tokens : List Token} :
    scanFrom start cs = .ok tokens ↔ Tiling start cs tokens := by
  constructor
  · intro h
    fun_induction scanFrom start cs generalizing tokens with
    | case1 start =>
      cases h
      exact .nil start
    | case2 start c cs hgap ih => exact .gap hgap (ih h)
    | case3 start c cs hgap ih =>
      obtain ⟨t, ht, h⟩ := bind_eq_ok.1 h
      obtain ⟨more, hmore, h⟩ := bind_eq_ok.1 h
      cases h
      obtain ⟨span, hspan, hsplit, hwidth, hends⟩ := scanToken_eq_ok ht
      have hrest := ih t hmore
      rw [hwidth] at hrest ⊢
      have hfront := Tiling.token hspan hends hrest
      rwa [← hsplit] at hfront
  · intro h
    induction h with
    | nil start => rw [scanFrom]
    | gap blank _ ih => rw [scanFrom_gap _ blank, ih]
    | token spells ends _ ih =>
      rw [scanFrom_of_spells spells ends, ih]
      rfl

/-- A span by itself is scanned into its token. -/
theorem Spells.scan {k : Kind} {span : List Char} (h : Spells k span) :
    Token.scan (String.ofList span) = .ok [⟨k, 0, widthOf span⟩] := by
  have hscan := scanFrom_of_spells h k.ends_nil 0
  rw [List.append_nil, scanFrom, Nat.zero_add] at hscan
  rw [Token.scan, String.toList_ofList]
  exact hscan

/-- Tokens tile a text that begins at the octet `start`: each takes some characters of it, which by
themselves are that token, none begins before the end of an earlier one, and a character that none
of them takes is a blank. -/
structure Tiles (start : Nat) (cs : List Char) (tokens : List Token) : Prop where
  ordered : tokens.Pairwise fun s t => s.stop ≤ t.start
  spans : ∀ t ∈ tokens, ∃ before span after, cs = before ++ (span ++ after) ∧ span ≠ [] ∧
    t.start = start + widthOf before ∧ t.stop = start + widthOf (before ++ span) ∧
      Token.scan (String.ofList span) = .ok [⟨t.kind, 0, widthOf span⟩]
  blank : ∀ before c after, cs = before ++ c :: after →
    isGap c = true ∨ ∃ t ∈ tokens, t.start ≤ start + widthOf before ∧
      start + widthOf before < t.stop

/-- A blank in front stands outside of all tokens. -/
theorem Tiles.gap {start : Nat} {c : Char} {cs : List Char} {tokens : List Token}
    (hc : isGap c = true) (h : Tiles (start + 1) cs tokens) : Tiles start (c :: cs) tokens := by
  have hwidth : c.utf8Size = 1 := utf8Size_of_isGap hc
  refine ⟨h.ordered, fun t ht => ?_, fun before d after he => ?_⟩
  · obtain ⟨before, span, after, rfl, hne, hstart, hstop, halone⟩ := h.spans t ht
    refine ⟨c :: before, span, after, rfl, hne, ?_, ?_, halone⟩
    · rw [hstart, widthOf_cons, hwidth, Nat.add_assoc]
    · rw [hstop, List.cons_append, widthOf_cons, hwidth, Nat.add_assoc]
  · match before with
    | [] =>
      obtain ⟨rfl, -⟩ := List.cons.inj he
      exact .inl hc
    | b :: before =>
      obtain ⟨rfl, rfl⟩ := List.cons.inj he
      rw [widthOf_cons, hwidth, ← Nat.add_assoc]
      exact h.blank before d after rfl

/-- A span in front is that of the first token. -/
theorem Tiles.token {start : Nat} {k : Kind} {span rest : List Char} {tokens : List Token}
    (hspan : Spells k span) (h : Tiles (start + widthOf span) rest tokens) :
    Tiles start (span ++ rest) (⟨k, start, start + widthOf span⟩ :: tokens) := by
  refine ⟨List.pairwise_cons.2 ⟨fun t ht => ?_, h.ordered⟩, List.forall_mem_cons.2 ⟨?_, ?_⟩, ?_⟩
  · obtain ⟨before, -, -, -, -, hstart, -⟩ := h.spans t ht
    rw [hstart]
    exact Nat.le_add_right _ _
  · exact ⟨[], span, rest, rfl, hspan.ne_nil, rfl, rfl, hspan.scan⟩
  · intro t ht
    obtain ⟨before, inner, after, rfl, hne, hstart, hstop, halone⟩ := h.spans t ht
    refine ⟨span ++ before, inner, after, (List.append_assoc ..).symm, hne, ?_, ?_, halone⟩
    · rw [hstart, widthOf_append, Nat.add_assoc]
    · rw [hstop, List.append_assoc, widthOf_append span, Nat.add_assoc]
  · intro before c after he
    rcases List.append_eq_append_iff.1 he with ⟨inner, rfl, hrest⟩ | ⟨inner, rfl, hafter⟩
    · rw [widthOf_append, ← Nat.add_assoc]
      exact (h.blank inner c after hrest).imp_right fun ⟨t, ht, hin⟩ =>
        ⟨t, List.mem_cons_of_mem _ ht, hin⟩
    · match inner with
      | [] =>
        rw [List.append_nil] at h ⊢
        exact (h.blank [] c after hafter.symm).imp_right fun ⟨t, ht, hin⟩ =>
          ⟨t, List.mem_cons_of_mem _ ht, hin⟩
      | d :: inner =>
        refine .inr ⟨_, List.mem_cons_self, Nat.le_add_right _ _, ?_⟩
        have := widthOf_pos (List.cons_ne_nil d inner)
        simp only [widthOf_append]
        omega

theorem Tiling.tiles {start : Nat} {cs : List Char} {tokens : List Token}
    (h : Tiling start cs tokens) : Tiles start cs tokens := by
  induction h with
  | nil start => exact ⟨.nil, nofun, by simp⟩
  | gap blank _ ih => exact ih.gap blank
  | token spells _ _ ih => exact ih.token spells

/-! ## Other blanks -/

/-- Where a text begins does not matter to the kinds of its tokens. -/
theorem Tiling.move {start : Nat} {cs : List Char} {tokens : List Token}
    (h : Tiling start cs tokens) (start' : Nat) :
    ∃ tokens', Tiling start' cs tokens' ∧ tokens'.map (·.kind) = tokens.map (·.kind) := by
  induction h generalizing start' with
  | nil start => exact ⟨[], .nil start', rfl⟩
  | gap blank _ ih =>
    obtain ⟨tokens', hmore, hkinds⟩ := ih (start' + 1)
    exact ⟨tokens', .gap blank hmore, hkinds⟩
  | @token _ k span rest tokens spells ends _ ih =>
    obtain ⟨tokens', hmore, hkinds⟩ := ih (start' + widthOf span)
    exact ⟨_, .token spells ends hmore, by rw [List.map_cons, List.map_cons, hkinds]⟩

/-- Some blanks. -/
def Blanks (gap : List Char) : Prop := gap ≠ [] ∧ ∀ c ∈ gap, isGap c = true

/-- Blanks in front are left out. -/
theorem tiling_gaps_append_iff {start : Nat} {gap cs : List Char} {tokens : List Token}
    (hgap : ∀ c ∈ gap, isGap c = true) :
    Tiling start (gap ++ cs) tokens ↔ Tiling (start + gap.length) cs tokens := by
  induction gap generalizing start with
  | nil => rfl
  | cons c gap ih =>
    rw [List.forall_mem_cons] at hgap
    rw [List.cons_append, ← scanFrom_eq_ok_iff, scanFrom_gap _ hgap.1, scanFrom_eq_ok_iff,
      ih hgap.2, List.length_cons, Nat.add_assoc, Nat.add_comm 1]

/-- **Blanks in place of other blanks leave the kinds of the tokens alone**, where they stand
outside of all tokens. -/
theorem Tiling.replace_gap {start : Nat} {before gap gap' after : List Char} {tokens : List Token}
    (h : Tiling start (before ++ (gap ++ after)) tokens) (hgap : Blanks gap) (hgap' : Blanks gap')
    (houtside : ∀ t ∈ tokens, t.stop ≤ start + widthOf before ∨
      start + widthOf (before ++ gap) ≤ t.start) (start' : Nat) :
    ∃ tokens', Tiling start' (before ++ (gap' ++ after)) tokens' ∧
      tokens'.map (·.kind) = tokens.map (·.kind) := by
  obtain ⟨hne, hgap⟩ := hgap
  obtain ⟨hne', hgap'⟩ := hgap'
  generalize hcs : before ++ (gap ++ after) = cs at h
  induction h generalizing before start' with
  | nil start => simp [hne] at hcs
  | @gap start c cs tokens blank rest ih =>
    match before with
    | [] =>
      have hfront : Tiling start (gap ++ after) tokens := hcs ▸ .gap blank rest
      obtain ⟨tokens', hmore, hkinds⟩ :=
        ((tiling_gaps_append_iff hgap).1 hfront).move (start' + gap'.length)
      exact ⟨tokens', (tiling_gaps_append_iff hgap').2 hmore, hkinds⟩
    | b :: before =>
      obtain ⟨rfl, rfl⟩ := List.cons.inj hcs
      simp only [List.cons_append, widthOf_cons, utf8Size_of_isGap blank, ← Nat.add_assoc]
        at houtside
      obtain ⟨tokens', hmore, hkinds⟩ := ih houtside (start' + 1) rfl
      exact ⟨tokens', .gap blank hmore, hkinds⟩
  | @token start k span rest tokens spells ends more ih =>
    rw [List.forall_mem_cons] at houtside
    -- The token stands before the blanks: it begins where the text does, and they are some.
    have hlater : start < start + widthOf (before ++ gap) := by
      rw [widthOf_append]
      have := widthOf_pos hne
      omega
    have hle : widthOf span ≤ widthOf before :=
      Nat.le_of_add_le_add_left (houtside.1.resolve_right (Nat.not_le.2 hlater))
    obtain ⟨between, rfl, rfl⟩ :
        ∃ between, before = span ++ between ∧ rest = between ++ (gap ++ after) := by
      rcases List.append_eq_append_iff.1 hcs with ⟨inner, rfl, hrest⟩ | h
      · have hinner : inner = [] := by
          refine Classical.not_not.1 fun hne => ?_
          have := widthOf_pos hne
          rw [widthOf_append] at hle
          omega
        subst hinner
        exact ⟨[], by simp, hrest.symm⟩
      · exact h
    simp only [List.append_assoc, widthOf_append span, ← Nat.add_assoc] at houtside
    obtain ⟨tokens', hmore, hkinds⟩ := ih houtside.2 (start' + widthOf span) rfl
    have hends : k.Ends (between ++ (gap' ++ after)) := by
      match between with
      | [] =>
        obtain ⟨c, cs, rfl⟩ := List.exists_cons_of_ne_nil hne'
        exact k.ends_gap (hgap' c List.mem_cons_self) _
      | c :: between => exact Kind.ends_cons_iff.2 (Kind.ends_cons_iff.1 ends)
    refine ⟨⟨k, start', start' + widthOf span⟩ :: tokens', ?_, ?_⟩
    · rw [List.append_assoc]
      exact .token spells hends hmore
    · rw [List.map_cons, List.map_cons, hkinds]

end RequestQuery.Filter
