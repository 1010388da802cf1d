import Mathlib.Data.List.Basic
import Mathlib.Data.List.TakeDrop
import RequestQuery.Parameters.Basic
import RequestQuery.Proofs.Fallible
import RequestQuery.Proofs.Utf8Decoding

/-!
# The size of a component

A component is read piece by piece: an escape stands for its octet, a plus sign for a space, and a
percent sign that begins no escape for itself and the two octets after it. The limit is tested once
for each piece, so the last piece may go over it, and octets that are no UTF-8 grow when they are
replaced.

* `Form.Piece`, `Form.piece_induct`: the pieces of a component, and induction on them.
* `Form.unescapeAll`, `Form.fullText`: what a component stands for, whatever its length.
* `Form.decode?_cases`: a component stands for all of that, or it is refused and over the limit.
* `Form.width_le_of_decode?`: how far over the limit it may be without being refused.
* `Parameters.ofQueryText_sized`: the same for every key and value of a query text.
-/

namespace RequestQuery

open Fallible

namespace Form

/-! ## Pieces of a component -/

/-- The first piece of the octets stands for `out`, and `rest` follows it. -/
inductive Piece : (octets out rest : List UInt8) → Prop where
  /-- A percent sign and two digits. -/
  | escape {high low : UInt8} {h l : Nat} (rest : List UInt8) : hexValue? high = some h →
    hexValue? low = some l →
      Piece (percent :: high :: low :: rest) [UInt8.ofNat (16 * h + l)] rest
  /-- A percent sign and two octets that are not both digits. -/
  | stray {high low : UInt8} (rest : List UInt8) : hexValue? high = none ∨ hexValue? low = none →
    Piece (percent :: high :: low :: rest) [percent, high, low] rest
  /-- A percent sign that nothing follows. -/
  | last : Piece [percent] [percent] []
  /-- A percent sign that one octet follows. -/
  | cut (high : UInt8) : Piece [percent, high] [percent, high] []
  | plus (rest : List UInt8) : Piece (plus :: rest) [space] rest
  | plain {octet : UInt8} (rest : List UInt8) : octet ≠ percent → octet ≠ plus →
    Piece (octet :: rest) [octet] rest

theorem exists_piece (octet : UInt8) (rest : List UInt8) :
    ∃ out rest', Piece (octet :: rest) out rest' := by
  by_cases hpercent : octet = percent
  · subst hpercent
    match rest with
    | [] => exact ⟨_, _, .last⟩
    | [high] => exact ⟨_, _, .cut high⟩
    | high :: low :: rest =>
      cases hh : hexValue? high with
      | none => exact ⟨_, _, .stray rest (.inl hh)⟩
      | some h =>
        cases hl : hexValue? low with
        | none => exact ⟨_, _, .stray rest (.inr hl)⟩
        | some l => exact ⟨_, _, .escape rest hh hl⟩
  · by_cases hplus : octet = plus
    · subst hplus
      exact ⟨_, _, .plus rest⟩
    · exact ⟨_, _, .plain rest hpercent hplus⟩

theorem Piece.length_lt {octets out rest : List UInt8} (h : Piece octets out rest) :
    rest.length < octets.length := by
  cases h <;> simp only [List.length_cons, List.length_nil] <;> omega

theorem Piece.length_out {octets out rest : List UInt8} (h : Piece octets out rest) :
    1 ≤ out.length ∧ out.length ≤ 3 := by
  cases h <;> simp only [List.length_cons, List.length_nil] <;> omega

/-- What holds of no octets, and of octets if it holds of what follows their first piece, holds of
all octets. -/
theorem piece_induct {motive : List UInt8 → Prop} (nil : motive [])
    (piece : ∀ octets out rest, Piece octets out rest → motive rest → motive octets)
    (octets : List UInt8) : motive octets := by
  induction hn : octets.length using Nat.strongRecOn generalizing octets with
  | ind n ih =>
    cases octets with
    | nil => exact nil
    | cons octet rest =>
      obtain ⟨out, rest', h⟩ := exists_piece octet rest
      exact piece _ out rest' h (ih rest'.length (hn ▸ h.length_lt) rest' rfl)

/-- Reading takes one piece after the other, as long as there is room. -/
theorem Piece.unescapeFrom?_eq {octets out rest : List UInt8} (h : Piece octets out rest)
    (done : List UInt8) {size : Nat} (hsize : size < maxOctets) :
    unescapeFrom? done size octets =
      unescapeFrom? (out.reverse ++ done) (size + out.length) rest := by
  have hroom : ¬ maxOctets ≤ size := Nat.not_le.2 hsize
  conv => lhs; rw [unescapeFrom?.eq_def]
  cases h with
  | escape rest hh hl => simp only [if_neg hroom, hh, hl, if_true, List.length_cons]; rfl
  | @stray high low rest hno =>
    simp only [if_neg hroom, if_true]
    rcases hno with hno | hno
    · rw [hno]
      rfl
    · cases hexValue? high <;> rw [hno] <;> rfl
  | last => simp only [if_neg hroom]; rfl
  | cut high => simp only [if_neg hroom]; rfl
  | plus rest => simp only [if_neg hroom]; rfl
  | plain rest hpercent hplus => simp only [if_neg hroom, if_neg hpercent, if_neg hplus]; rfl

/-- Reading stops when there is no room for another piece. -/
theorem Piece.unescapeFrom?_eq_none {octets out rest : List UInt8} (h : Piece octets out rest)
    (done : List UInt8) {size : Nat} (hsize : maxOctets ≤ size) :
    unescapeFrom? done size octets = none := by
  rw [unescapeFrom?.eq_def]
  cases h <;> exact if_pos hsize

/-! ## Components of any length -/

/-- The octets that a component stands for, whatever its length. -/
def unescapeAll : List UInt8 → List UInt8
  | [] => []
  | octet :: rest =>
    if octet = percent then
      match rest with
      | high :: low :: rest =>
        match hexValue? high, hexValue? low with
        | some h, some l => UInt8.ofNat (16 * h + l) :: unescapeAll rest
        | _, _ => percent :: high :: low :: unescapeAll rest
      | rest => percent :: rest
    else if octet = plus then space :: unescapeAll rest
    else octet :: unescapeAll rest

theorem Piece.unescapeAll_eq {octets out rest : List UInt8} (h : Piece octets out rest) :
    unescapeAll octets = out ++ unescapeAll rest := by
  conv => lhs; rw [unescapeAll.eq_def]
  cases h with
  | escape rest hh hl => simp only [hh, hl, if_true]; rfl
  | @stray high low rest hno =>
    simp only [if_true]
    rcases hno with hno | hno
    · rw [hno]
      rfl
    · cases hexValue? high <;> rw [hno] <;> rfl
  | last => rfl
  | cut high => rfl
  | plus rest => rfl
  | plain rest hpercent hplus => simp only [if_neg hpercent, if_neg hplus]; rfl

/-- **Nothing is left out, and reading stops only when there is more than fits.** -/
theorem unescapeFrom?_cases (octets done : List UInt8) (size : Nat) :
    unescapeFrom? done size octets = some (done.reverse ++ unescapeAll octets) ∨
      unescapeFrom? done size octets = none ∧ maxOctets < size + (unescapeAll octets).length := by
  induction octets using piece_induct generalizing done size with
  | nil =>
    left
    rw [unescapeFrom?, unescapeAll, List.append_nil]
  | piece octets out rest h ih =>
    have hout := h.length_out.1
    rw [h.unescapeAll_eq, List.length_append]
    by_cases hsize : size < maxOctets
    · have hrest := ih (out.reverse ++ done) (size + out.length)
      rw [← h.unescapeFrom?_eq done hsize, List.reverse_append, List.reverse_reverse,
        List.append_assoc, Nat.add_assoc] at hrest
      exact hrest
    · exact .inr ⟨h.unescapeFrom?_eq_none done (Nat.le_of_not_lt hsize), by omega⟩

/-- The last piece goes over the limit by two octets at most. -/
theorem length_le_of_unescapeFrom? {octets done result : List UInt8} {size : Nat}
    (hsize : size ≤ maxOctets + 2) (h : unescapeFrom? done size octets = some result) :
    size + (unescapeAll octets).length ≤ maxOctets + 2 := by
  induction octets using piece_induct generalizing done size with
  | nil => exact hsize
  | piece octets out rest hpiece ih =>
    by_cases hroom : size < maxOctets
    · rw [hpiece.unescapeFrom?_eq done hroom] at h
      have hout := hpiece.length_out.2
      rw [hpiece.unescapeAll_eq, List.length_append, ← Nat.add_assoc]
      exact ih (by omega) h
    · rw [hpiece.unescapeFrom?_eq_none done (Nat.le_of_not_lt hroom)] at h
      cases h

/-- Octets that are no percent or plus signs stand for themselves, as far as there is room. -/
theorem unescapeFrom?_plain {octets : List UInt8}
    (h : ∀ octet ∈ octets, octet ≠ percent ∧ octet ≠ plus) (done rest : List UInt8)
    {size : Nat} (hsize : size + octets.length ≤ maxOctets) :
    unescapeFrom? done size (octets ++ rest) =
      unescapeFrom? (octets.reverse ++ done) (size + octets.length) rest := by
  induction octets generalizing done size with
  | nil => rfl
  | cons octet octets ih =>
    obtain ⟨⟨hpercent, hplus⟩, hrest⟩ := List.forall_mem_cons.1 h
    rw [List.length_cons] at hsize
    have hpiece := Piece.plain (octets ++ rest) hpercent hplus
    calc unescapeFrom? done size (octet :: octets ++ rest)
        = unescapeFrom? (octet :: done) (size + 1) (octets ++ rest) :=
          hpiece.unescapeFrom?_eq done (by omega)
      _ = unescapeFrom? (octets.reverse ++ octet :: done) (size + 1 + octets.length) rest :=
          ih hrest (octet :: done) (by omega)
      _ = unescapeFrom? ((octet :: octets).reverse ++ done) (size + (octets.length + 1)) rest := by
          rw [List.reverse_cons, List.append_assoc, Nat.add_assoc, Nat.add_comm 1]
          rfl

/-! ## Well-formed components -/

/-- Every percent sign is followed by two digits. -/
def Escaped (octets : List UInt8) : Prop :=
  ∀ before after, octets = before ++ percent :: after → ∃ high low rest,
    after = high :: low :: rest ∧ hexValue? high ≠ none ∧ hexValue? low ≠ none

theorem Escaped.of_append (before : List UInt8) {octets : List UInt8}
    (h : Escaped (before ++ octets)) : Escaped octets := fun before' after he =>
  h (before ++ before') after (by rw [he, List.append_assoc])

/-- Where no percent sign stands for itself, a piece stands for one octet. -/
theorem Escaped.piece {octets out rest : List UInt8} (h : Escaped octets)
    (hpiece : Piece octets out rest) : out.length = 1 ∧ Escaped rest := by
  cases hpiece with
  | @escape high low => exact ⟨rfl, h.of_append [percent, high, low]⟩
  | @stray high low rest hno =>
    obtain ⟨high', low', rest', he, hhigh, hlow⟩ := h [] _ rfl
    cases he
    exact (hno.elim hhigh hlow).elim
  | last =>
    obtain ⟨_, _, _, he, -, -⟩ := h [] _ rfl
    cases he
  | cut high =>
    obtain ⟨_, _, _, he, -, -⟩ := h [] _ rfl
    cases he
  | plus => exact ⟨rfl, h.of_append [Form.plus]⟩
  | @plain octet => exact ⟨rfl, h.of_append [octet]⟩

/-- Where no percent sign stands for itself, the limit is exact. -/
theorem Escaped.length_le {octets done result : List UInt8} {size : Nat} (he : Escaped octets)
    (hsize : size ≤ maxOctets) (h : unescapeFrom? done size octets = some result) :
    size + (unescapeAll octets).length ≤ maxOctets := by
  induction octets using piece_induct generalizing done size with
  | nil => exact hsize
  | piece octets out rest hpiece ih =>
    obtain ⟨hout, hrest⟩ := he.piece hpiece
    by_cases hroom : size < maxOctets
    · rw [hpiece.unescapeFrom?_eq done hroom, hout] at h
      rw [hpiece.unescapeAll_eq, List.length_append, hout, ← Nat.add_assoc]
      exact ih hrest hroom h
    · rw [hpiece.unescapeFrom?_eq_none done (Nat.le_of_not_lt hroom)] at h
      cases h

/-! ## The texts of components -/

/-- The text that a component stands for, whatever its length. -/
def fullText (component : String) : String :=
  String.ofList (Utf8.decode (unescapeAll (Utf8.encode component.toList)))

/-- No percent sign of a component stands for itself, and what it stands for is UTF-8. -/
structure Tidy (component : String) : Prop where
  escaped : Escaped (Utf8.encode component.toList)
  utf8 : ∃ cs, unescapeAll (Utf8.encode component.toList) = Utf8.encode cs

theorem width_fullText (component : String) :
    (unescapeAll (Utf8.encode component.toList)).length ≤ Utf8.width (fullText component) ∧
      Utf8.width (fullText component) ≤
        3 * (unescapeAll (Utf8.encode component.toList)).length := by
  rw [Utf8.width, fullText, String.toList_ofList]
  exact Utf8.length_le_widthOf_decode _

/-- **A component stands for its whole text or is refused**, which happens only to a text that is
over the limit. -/
theorem decode?_cases (component : String) : decode? component = some (fullText component) ∨
    decode? component = none ∧ maxOctets < Utf8.width (fullText component) := by
  rw [decode?, unescape?]
  rcases unescapeFrom?_cases (Utf8.encode component.toList) [] 0 with h | ⟨h, hlt⟩
  · rw [h]
    exact .inl rfl
  · rw [h]
    rw [Nat.zero_add] at hlt
    exact .inr ⟨rfl, Nat.lt_of_lt_of_le hlt (width_fullText component).1⟩

/-- **What a component stands for goes over the limit by a percent sign at its end and by
replacement characters only.** -/
theorem width_le_of_decode? {component : String} (h : decode? component ≠ none) :
    Utf8.width (fullText component) ≤ 3 * (maxOctets + 2) ∧
      (Tidy component → Utf8.width (fullText component) ≤ maxOctets) := by
  obtain ⟨octets, hoctets⟩ := Option.ne_none_iff_exists'.1 (mt (congrArg (Option.map _)) h)
  have hlength := length_le_of_unescapeFrom? (Nat.zero_le _) hoctets
  rw [Nat.zero_add] at hlength
  refine ⟨Nat.le_trans (width_fullText component).2 (Nat.mul_le_mul_left 3 hlength),
    fun htidy => ?_⟩
  obtain ⟨cs, hcs⟩ := htidy.utf8
  have hle := htidy.escaped.length_le (Nat.zero_le _) hoctets
  rw [Nat.zero_add, hcs, Utf8.length_encode] at hle
  rwa [Utf8.width, fullText, String.toList_ofList, hcs, Utf8.decode_encode]

end Form

/-! ## Query texts -/

theorem Text.splitFirst?_append {sep : Char} {before : List Char} (h : sep ∉ before)
    (after : List Char) : splitFirst? sep (String.ofList (before ++ sep :: after)) =
      some (String.ofList before, String.ofList after) := by
  have hbefore : ∀ c ∈ before, decide (c ≠ sep) = true := fun c hc =>
    decide_eq_true fun he => h (he ▸ hc)
  have hsep : ∀ c ∈ (sep :: after).head?, decide (c ≠ sep) = false := by simp
  rw [splitFirst?, String.toList_ofList, List.span_eq_takeWhile_dropWhile,
    takeWhile_append_of_head hbefore hsep, dropWhile_append_of_head hbefore hsep]

namespace Parameters

open Form (fullText maxOctets)

/-- The key and the value that a part of a query text writes, with their escapes. -/
def writtenPair (part : String) : String × String :=
  (Text.splitFirst? '=' part).getD (part, "")

/-- The keys and the values that a query text writes, with their escapes. -/
def writtenPairs (query : String) : List (String × String) :=
  ((Text.split '&' query).filter (· ≠ "")).map writtenPair

/-- A key and a value with their escapes read. -/
def fullPair (written : String × String) : String × String :=
  (fullText written.1, fullText written.2)

theorem writtenPair_append {key : List Char} (h : '=' ∉ key) (value : List Char) :
    writtenPair (String.ofList (key ++ '=' :: value)) =
      (String.ofList key, String.ofList value) := by
  rw [writtenPair, Text.splitFirst?_append h, Option.getD_some]

/-- The parts of a query text are read one by one. -/
theorem ofQueryText_join {parts : List String}
    (h : ∀ part ∈ parts, part ≠ "" ∧ '&' ∉ part.toList) :
    ofQueryText (Text.join "&" parts) = ofPairs <$> parts.mapM pair := by
  have hsplit : (Text.split '&' (Text.join "&" parts)).filter (· ≠ "") = parts := by
    cases parts with
    | nil => rfl
    | cons part rest =>
      have hjoin := Text.split_join_of_notMem (List.cons_ne_nil part rest)
        fun part' hpart' => (h part' hpart').2
      refine (congrArg (List.filter _) hjoin).trans ?_
      exact List.filter_eq_self.2 fun part' hpart' => decide_eq_true (h part' hpart').1
  rw [ofQueryText, hsplit]
  rfl

theorem pair_eq (part : String) : pair part = (do
    let some key := Form.decode? (writtenPair part).1
      | .error (tooLarge "query" (writtenPair part).1)
    let some value := Form.decode? (writtenPair part).2
      | .error (tooLarge key (writtenPair part).2)
    return (key, value)) := by
  unfold pair writtenPair
  generalize (Text.splitFirst? '=' part).getD (part, "") = written
  cases written
  rfl

/-- A part of a query text is read whole. -/
theorem pair_eq_ok {part : String} {x : String × String} (h : pair part = .ok x) :
    x = fullPair (writtenPair part) ∧ Form.decode? (writtenPair part).1 ≠ none ∧
      Form.decode? (writtenPair part).2 ≠ none := by
  rw [pair_eq] at h
  rcases Form.decode?_cases (writtenPair part).1 with hkey | ⟨hkey, -⟩
  · rcases Form.decode?_cases (writtenPair part).2 with hvalue | ⟨hvalue, -⟩
    · rw [hkey, hvalue] at h ⊢
      exact ⟨(pure_eq_ok.1 h).symm, Option.some_ne_none _, Option.some_ne_none _⟩
    · rw [hkey, hvalue] at h
      cases h
  · rw [hkey] at h
    cases h

/-- A part of a query text is refused when its key or its value is over the limit. -/
theorem pair_eq_error {part : String} {r : Rejection} (h : pair part = .error r) :
    ∃ component ∈ [(writtenPair part).1, (writtenPair part).2],
      maxOctets < Utf8.width (fullText component) ∧ ∃ param, r = tooLarge param component := by
  rw [pair_eq] at h
  rcases Form.decode?_cases (writtenPair part).1 with hkey | ⟨hkey, hover⟩
  · rcases Form.decode?_cases (writtenPair part).2 with hvalue | ⟨hvalue, hover⟩
    · rw [hkey, hvalue] at h
      cases h
    · rw [hkey, hvalue] at h
      cases h
      exact ⟨_, List.mem_cons_of_mem _ List.mem_cons_self, hover, _, rfl⟩
  · rw [hkey] at h
    cases h
    exact ⟨_, List.mem_cons_self, hover, _, rfl⟩

theorem pair_of_decode? {part key value : String}
    (hkey : Form.decode? (writtenPair part).1 = some key)
    (hvalue : Form.decode? (writtenPair part).2 = some value) : pair part = .ok (key, value) := by
  rw [pair_eq, hkey, hvalue]
  rfl

theorem mapM_pair_eq_ok {parts : List String} {pairs : List (String × String)} :
    parts.mapM pair = .ok pairs ↔ pairs = (parts.map writtenPair).map fullPair ∧
      ∀ part ∈ parts, pair part = .ok (fullPair (writtenPair part)) := by
  rw [List.map_map]
  exact mapM_eq_ok_iff fun part x h => (pair_eq_ok h).1

/-- **A query text is read whole or refused.** Nothing of it is left out; a key or a value that is
over the limit is the only reason to refuse it; and only a percent sign that stands for itself and
replacement characters can take a key or a value over the limit without its being refused. -/
theorem ofQueryText_sized (query : String) :
    (∀ p, ofQueryText query = .ok p → p = ofPairs ((writtenPairs query).map fullPair) ∧
      ∀ x ∈ writtenPairs query, ∀ component ∈ [x.1, x.2],
        Utf8.width (fullText component) ≤ 3 * (maxOctets + 2) ∧
          (Form.Tidy component → Utf8.width (fullText component) ≤ maxOctets)) ∧
    ∀ r, ofQueryText query = .error r → ∃ x ∈ writtenPairs query, ∃ component ∈ [x.1, x.2],
      maxOctets < Utf8.width (fullText component) ∧ ∃ param, r = tooLarge param component := by
  refine ⟨fun p h => ?_, fun r h => ?_⟩
  · obtain ⟨pairs, hpairs, h⟩ := bind_eq_ok.1 h
    obtain rfl := pure_eq_ok.1 h
    obtain ⟨rfl, hparts⟩ := mapM_pair_eq_ok.1 hpairs
    refine ⟨rfl, fun x hx component hcomponent => Form.width_le_of_decode? ?_⟩
    obtain ⟨part, hpart, rfl⟩ := List.mem_map.1 hx
    obtain ⟨-, hkey, hvalue⟩ := pair_eq_ok (hparts part hpart)
    simp only [List.mem_cons, List.not_mem_nil, or_false] at hcomponent
    rcases hcomponent with rfl | rfl
    · exact hkey
    · exact hvalue
  · rcases hpairs : ((Text.split '&' query).filter (· ≠ "")).mapM pair with r' | pairs
    · obtain rfl : r' = r := by
        unfold ofQueryText at h
        simp only [hpairs] at h
        exact Except.error.inj h
      obtain ⟨part, hpart, herror⟩ := exists_of_mapM_eq_error hpairs
      obtain ⟨component, hmem, hover, hparam⟩ := pair_eq_error herror
      exact ⟨_, List.mem_map_of_mem hpart, component, hmem, hover, hparam⟩
    · unfold ofQueryText at h
      simp only [hpairs] at h
      cases h

/-- A query text with one key. -/
theorem ofQueryText_single {written value : String} (hand : '&' ∉ written.toList)
    (hvalue : Form.decode? written = some value) :
    ofQueryText ("k=" ++ written) = .ok (ofPairs [("k", value)]) := by
  have hchars : ("k=" ++ written).toList = ['k'] ++ '=' :: written.toList := String.toList_append
  have hpart : writtenPair ("k=" ++ written) = ("k", written) := by
    have h := @writtenPair_append ['k'] (by decide) written.toList
    rwa [← hchars, String.ofList_toList, String.ofList_toList] at h
  have hkey : Form.decode? "k" = some "k" := by decide +kernel
  have hpair : pair ("k=" ++ written) = .ok ("k", value) :=
    pair_of_decode? (by rw [hpart]; exact hkey) (by rw [hpart]; exact hvalue)
  have hquery := @ofQueryText_join ["k=" ++ written] (by
    rw [List.forall_mem_singleton, ← String.toList_eq_nil_iff.ne, hchars]
    refine ⟨List.cons_ne_nil _ _, ?_⟩
    simp only [List.mem_append, List.mem_cons, not_or]
    exact ⟨by decide, by decide, hand⟩)
  rwa [List.mapM_cons, hpair] at hquery

/-- One letter less than there is room for, and a percent sign that stands for itself. -/
def overfull : String :=
  String.ofList (List.replicate (maxOctets - 1) 'a' ++ ['%', 'z', 'z'])

theorem decode?_overfull : Form.decode? overfull = some overfull := by
  have hencode : Utf8.encode overfull.toList =
      Utf8.encode (List.replicate (maxOctets - 1) 'a') ++ [Form.percent, 0x7A, 0x7A] := by
    rw [overfull, String.toList_ofList, Utf8.encode_append]
    rfl
  have hplain : ∀ octet ∈ Utf8.encode (List.replicate (maxOctets - 1) 'a'),
      octet ≠ Form.percent ∧ octet ≠ Form.plus := by
    intro octet hoctet
    obtain ⟨c, hc, hmem⟩ := List.mem_flatMap.1 hoctet
    rw [List.eq_of_mem_replicate hc, Utf8.encodeChar_of_lt (by decide), List.mem_singleton] at hmem
    subst hmem
    decide
  have hlength : (Utf8.encode (List.replicate (maxOctets - 1) 'a')).length = maxOctets - 1 := by
    rw [Utf8.length_encode, Utf8.widthOf_replicate, show 'a'.utf8Size = 1 from rfl, Nat.mul_one]
  have hpiece : Form.Piece [Form.percent, 0x7A, 0x7A] [Form.percent, 0x7A, 0x7A] [] :=
    .stray [] (.inl (by decide))
  rw [Form.decode?, Form.unescape?, hencode, Form.unescapeFrom?_plain hplain _ _ (by omega),
    hpiece.unescapeFrom?_eq _ (by rw [hlength]; decide), Form.unescapeFrom?, List.append_nil,
    ← List.reverse_append, List.reverse_reverse, ← hencode, Option.map_some, Utf8.decode_encode,
    String.ofList_toList]

/-- A value that is over the limit need not be refused. -/
theorem overfull_not_refused : ∃ p, ofQueryText ("k=" ++ overfull) = .ok p ∧
    p.get? "k" = some [overfull] ∧ maxOctets < Utf8.width overfull := by
  have hand : '&' ∉ overfull.toList := by
    rw [overfull, String.toList_ofList, List.mem_append, not_or]
    exact ⟨fun h => absurd (List.eq_of_mem_replicate h) (by decide), by decide⟩
  refine ⟨_, ofQueryText_single hand decode?_overfull, get?_push_self .., ?_⟩
  rw [Utf8.width, overfull, String.toList_ofList, Utf8.widthOf_append, Utf8.widthOf_replicate]
  decide

end Parameters

end RequestQuery
