import RequestQuery.Proofs.ComponentSize
import RequestQuery.Proofs.RequestLayout

/-!
# Query texts as they are written

A query text is written from pairs of keys and values: each character stands for itself or is
escaped, octet by octet, a space may be a plus sign, and what separates or escapes is always
escaped. However the choices are made, the pairs are read back, and the same parameters come from
the object that holds the values of each key.

* `Form.WritesChar`, `Form.WritesText`: how characters may be written where some are reserved.
* `Form.WritesPair`, `Form.WritesQuery`: how pairs may be written.
* `Form.decode?_of_writesText`: a component is read back.
* `Parameters.ofQueryText_of_writes`: a query text is read back.
* `Parameters.ofJson_jsonOf`: and so is the object.
-/

namespace RequestQuery

open Fallible

namespace Form

/-! ## Writing -/

/-- A hexadecimal digit, in either case. -/
def IsDigit (value : Nat) (c : Char) : Prop :=
  "0123456789abcdef".toList[value]? = some c ∨ "0123456789ABCDEF".toList[value]? = some c

/-- An octet as an escape. -/
inductive WritesOctet (octet : UInt8) : List Char → Prop where
  | mk {high low : Char} : IsDigit (octet.toNat / 16) high → IsDigit (octet.toNat % 16) low →
    WritesOctet octet ['%', high, low]

/-- How a character may be written where some are reserved. -/
inductive WritesChar (reserved : List Char) : Char → List Char → Prop where
  | itself {c : Char} : c ∉ reserved → WritesChar reserved c [c]
  | plus : WritesChar reserved ' ' ['+']
  | escaped {c : Char} {escapes : List (List Char)} :
    List.Forall₂ WritesOctet (String.utf8EncodeChar c) escapes →
      WritesChar reserved c escapes.flatten

/-- How characters may be written, one after the other. -/
inductive WritesText (reserved : List Char) : List Char → List Char → Prop where
  | nil : WritesText reserved [] []
  | cons {c : Char} {cs written rest : List Char} : WritesChar reserved c written →
    WritesText reserved cs rest → WritesText reserved (c :: cs) (written ++ rest)

/-- The characters that are always escaped in a value. -/
def reservedInValues : List Char := ['%', '+', '&']

/-- The characters that are always escaped in a key. -/
def reservedInKeys : List Char := '=' :: reservedInValues

/-- How a pair may be written. -/
inductive WritesPair : String × String → String → Prop where
  | mk {key value : String} {writtenKey writtenValue : List Char} :
    WritesText reservedInKeys key.toList writtenKey →
      WritesText reservedInValues value.toList writtenValue →
        WritesPair (key, value) (String.ofList (writtenKey ++ '=' :: writtenValue))

/-- How pairs may be written. -/
def WritesQuery (pairs : List (String × String)) (query : String) : Prop :=
  ∃ parts, List.Forall₂ WritesPair pairs parts ∧ query = Text.join "&" parts

/-! ## Reading a character back -/

theorem hexValue?_of_isDigit {value : Nat} {c : Char} (h : IsDigit value c) :
    c.toNat < 0x80 ∧ hexValue? (UInt8.ofNat c.toNat) = some value := by
  have hlower : ∀ n : Fin 16, ("0123456789abcdef".toList[n]).toNat < 0x80 ∧
      hexValue? (UInt8.ofNat ("0123456789abcdef".toList[n]).toNat) = some n.1 := by decide
  have hupper : ∀ n : Fin 16, ("0123456789ABCDEF".toList[n]).toNat < 0x80 ∧
      hexValue? (UInt8.ofNat ("0123456789ABCDEF".toList[n]).toNat) = some n.1 := by decide
  rcases h with h | h
  · obtain ⟨hlt, rfl⟩ := List.getElem?_eq_some_iff.1 h
    exact hlower ⟨value, hlt⟩
  · obtain ⟨hlt, rfl⟩ := List.getElem?_eq_some_iff.1 h
    exact hupper ⟨value, hlt⟩

/-- An escape stands for its octet. -/
theorem unescapeAll_of_writesOctet {octet : UInt8} {written : List Char}
    (h : WritesOctet octet written) (rest : List UInt8) :
    unescapeAll (Utf8.encode written ++ rest) = octet :: unescapeAll rest := by
  obtain @⟨high, low, hhigh, hlow⟩ := h
  obtain ⟨hhigh, hh⟩ := hexValue?_of_isDigit hhigh
  obtain ⟨hlow, hl⟩ := hexValue?_of_isDigit hlow
  have hencode : Utf8.encode ['%', high, low] ++ rest =
      percent :: UInt8.ofNat high.toNat :: UInt8.ofNat low.toNat :: rest := by
    rw [Utf8.encode_cons, Utf8.encode_cons, Utf8.encode_cons, Utf8.encodeChar_of_lt hhigh,
      Utf8.encodeChar_of_lt hlow]
    rfl
  have hvalue : UInt8.ofNat (16 * (octet.toNat / 16) + octet.toNat % 16) = octet := by
    rw [Nat.div_add_mod, UInt8.ofNat_toNat]
  rw [hencode, (Piece.escape rest hh hl).unescapeAll_eq, hvalue]
  rfl

theorem unescapeAll_of_writesOctets {octets : List UInt8} {escapes : List (List Char)}
    (h : List.Forall₂ WritesOctet octets escapes) (rest : List UInt8) :
    unescapeAll (Utf8.encode escapes.flatten ++ rest) = octets ++ unescapeAll rest := by
  induction h with
  | nil => rfl
  | cons hoctet _ ih =>
    rw [List.flatten_cons, Utf8.encode_append, List.append_assoc, unescapeAll_of_writesOctet hoctet,
      ih]
    rfl

/-- Octets that are no percent or plus signs stand for themselves. -/
theorem unescapeAll_plain {octets : List UInt8}
    (h : ∀ octet ∈ octets, octet ≠ percent ∧ octet ≠ plus) (rest : List UInt8) :
    unescapeAll (octets ++ rest) = octets ++ unescapeAll rest := by
  induction octets with
  | nil => rfl
  | cons octet octets ih =>
    obtain ⟨⟨hpercent, hplus⟩, hoctets⟩ := List.forall_mem_cons.1 h
    rw [List.cons_append, (Piece.plain _ hpercent hplus).unescapeAll_eq, ih hoctets]
    rfl

/-- The octets of a character that is no percent or plus sign are none of these. -/
theorem ne_of_mem_encodeChar {c : Char} (hpercent : c ≠ '%') (hplus : c ≠ '+') :
    ∀ octet ∈ String.utf8EncodeChar c, octet ≠ percent ∧ octet ≠ plus := by
  intro octet hoctet
  by_cases hascii : c.toNat < 0x80
  · rw [Utf8.encodeChar_of_lt hascii, List.mem_singleton] at hoctet
    have hnat : octet.toNat = c.toNat := by
      rw [hoctet, UInt8.toNat_ofNat_of_lt' (show c.toNat < 256 by omega)]
    have hne {d : Char} (hd : c ≠ d) : octet.toNat ≠ d.toNat := fun he =>
      hd (Char.toNat_inj.1 (hnat.symm.trans he))
    exact ⟨fun he => hne hpercent (congrArg UInt8.toNat he),
      fun he => hne hplus (congrArg UInt8.toNat he)⟩
  · have hle := Utf8.le_of_mem_encodeChar (Nat.le_of_not_lt hascii) octet hoctet
    constructor
    · rintro rfl
      exact absurd hle (by decide)
    · rintro rfl
      exact absurd hle (by decide)

/-- **However a character is written, it is read back as its octets.** -/
theorem unescapeAll_of_writesChar {reserved : List Char} (hpercent : '%' ∈ reserved)
    (hplus : '+' ∈ reserved) {c : Char} {written : List Char} (h : WritesChar reserved c written)
    (rest : List UInt8) :
    unescapeAll (Utf8.encode written ++ rest) = String.utf8EncodeChar c ++ unescapeAll rest := by
  cases h with
  | itself hc =>
    have hc' : c ≠ '%' ∧ c ≠ '+' := by
      constructor <;> (rintro rfl; exact hc ‹_›)
    rw [Utf8.encode_cons, Utf8.encode_nil, List.append_nil]
    exact unescapeAll_plain (ne_of_mem_encodeChar hc'.1 hc'.2) rest
  | plus => exact (Piece.plus rest).unescapeAll_eq
  | escaped h => exact unescapeAll_of_writesOctets h rest

/-! ## Components -/

theorem unescapeAll_of_writesText {reserved : List Char} (hpercent : '%' ∈ reserved)
    (hplus : '+' ∈ reserved) {cs written : List Char} (h : WritesText reserved cs written) :
    unescapeAll (Utf8.encode written) = Utf8.encode cs := by
  induction h with
  | nil => rfl
  | cons hc _ ih =>
    rw [Utf8.encode_append, unescapeAll_of_writesChar hpercent hplus hc, ih, Utf8.encode_cons]

/-- **A component is read back**, if its text is within the limit. -/
theorem decode?_of_writesText {reserved : List Char} (hpercent : '%' ∈ reserved)
    (hplus : '+' ∈ reserved) {text : String} {written : List Char}
    (h : WritesText reserved text.toList written) (hwidth : Utf8.width text ≤ maxOctets) :
    decode? (String.ofList written) = some text := by
  have htext : fullText (String.ofList written) = text := by
    rw [fullText, String.toList_ofList, unescapeAll_of_writesText hpercent hplus h,
      Utf8.decode_encode, String.ofList_toList]
  rcases decode?_cases (String.ofList written) with hread | ⟨-, hover⟩
  · rw [hread, htext]
  · rw [htext] at hover
    exact absurd hwidth (Nat.not_le.2 hover)

/-! ## Separators -/

/-- The characters that escapes are made of. -/
def escapeChars : List Char := "%+0123456789abcdefABCDEF".toList

theorem mem_escapeChars_of_writesOctet {octet : UInt8} {written : List Char}
    (h : WritesOctet octet written) : ∀ c ∈ written, c ∈ escapeChars := by
  have hdigit {value : Nat} {c : Char} (h : IsDigit value c) : c ∈ escapeChars := by
    rcases h with h | h
    · have hlower : "0123456789abcdef".toList ⊆ escapeChars := by decide
      exact hlower (List.mem_of_getElem? h)
    · have hupper : "0123456789ABCDEF".toList ⊆ escapeChars := by decide
      exact hupper (List.mem_of_getElem? h)
  cases h with
  | mk hhigh hlow =>
    intro c hc
    simp only [List.mem_cons, List.not_mem_nil, or_false] at hc
    rcases hc with rfl | rfl | rfl
    · decide
    · exact hdigit hhigh
    · exact hdigit hlow

theorem notMem_of_writesOctets {d : Char} (hescape : d ∉ escapeChars) {octets : List UInt8}
    {escapes : List (List Char)} (h : List.Forall₂ WritesOctet octets escapes) :
    d ∉ escapes.flatten := by
  induction h with
  | nil => exact List.not_mem_nil
  | cons hoctet _ ih =>
    rw [List.flatten_cons, List.mem_append]
    exact not_or.2 ⟨fun hd => hescape (mem_escapeChars_of_writesOctet hoctet d hd), ih⟩

/-- A reserved character that escapes are not made of is never written. -/
theorem notMem_of_writesChar {reserved : List Char} {d : Char} (hd : d ∈ reserved)
    (hescape : d ∉ escapeChars) {c : Char} {written : List Char}
    (h : WritesChar reserved c written) : d ∉ written := by
  cases h with
  | itself hc =>
    rw [List.mem_singleton]
    rintro rfl
    exact hc hd
  | plus =>
    rw [List.mem_singleton]
    rintro rfl
    exact hescape (by decide)
  | escaped h => exact notMem_of_writesOctets hescape h

theorem notMem_of_writesText {reserved : List Char} {d : Char} (hd : d ∈ reserved)
    (hescape : d ∉ escapeChars) {cs written : List Char} (h : WritesText reserved cs written) :
    d ∉ written := by
  induction h with
  | nil => exact List.not_mem_nil
  | cons hc _ ih => exact List.mem_append.not.2 (not_or.2 ⟨notMem_of_writesChar hd hescape hc, ih⟩)

end Form

/-! ## Dictionaries of given keys -/

/-- At each of the given keys stands its value. -/
theorem Dict.get?_ofList_map {α : Type} (f : String → α) (keys : List String) (key : String) :
    (Dict.ofList (keys.map fun k => (k, f k))).get? key =
      if key ∈ keys then some (f key) else none := by
  suffices h : ∀ d : Dict α, ((keys.map fun k => (k, f k)).foldl
      (fun d e => d.insert e.1 e.2) d).get? key = if key ∈ keys then some (f key) else d.get? key
    from h Dict.empty
  induction keys with
  | nil => exact fun _ => rfl
  | cons k keys ih =>
    intro d
    rw [List.map_cons, List.foldl_cons, ih]
    by_cases hkey : key = k
    · subst hkey
      rw [Dict.get?_insert_self, ite_self, if_pos List.mem_cons_self]
    · rw [Dict.get?_insert_of_ne _ hkey]
      simp only [List.mem_cons, hkey, false_or]

/-! ## Query texts -/

namespace Parameters

open Form

/-- A pair is read back from its part of a query text. -/
theorem pair_of_writesPair {x : String × String} {part : String} (h : WritesPair x part)
    (hkey : Utf8.width x.1 ≤ maxOctets) (hvalue : Utf8.width x.2 ≤ maxOctets) :
    pair part = .ok x := by
  cases h with
  | @mk key value writtenKey writtenValue hk hv =>
    have hequals : '=' ∉ writtenKey := notMem_of_writesText (by decide) (by decide) hk
    have hcut := writtenPair_append hequals writtenValue
    refine pair_of_decode? ?_ ?_
    · rw [hcut]
      exact decode?_of_writesText (by decide) (by decide) hk hkey
    · rw [hcut]
      exact decode?_of_writesText (by decide) (by decide) hv hvalue

/-- The part of a pair is not empty and has no ampersand. -/
theorem part_of_writesPair {x : String × String} {part : String} (h : WritesPair x part) :
    part ≠ "" ∧ '&' ∉ part.toList := by
  cases h with
  | mk hk hv =>
    rw [← String.toList_eq_nil_iff.ne, String.toList_ofList]
    refine ⟨fun he => List.cons_ne_nil _ _ (List.append_eq_nil_iff.1 he).2, ?_⟩
    simp only [List.mem_append, List.mem_cons, not_or]
    exact ⟨notMem_of_writesText (by decide) (by decide) hk, by decide,
      notMem_of_writesText (by decide) (by decide) hv⟩

theorem mapM_pair_of_writes {pairs : List (String × String)} {parts : List String}
    (h : List.Forall₂ WritesPair pairs parts)
    (hwidth : ∀ x ∈ pairs, Utf8.width x.1 ≤ maxOctets ∧ Utf8.width x.2 ≤ maxOctets) :
    parts.mapM pair = .ok pairs ∧ ∀ part ∈ parts, part ≠ "" ∧ '&' ∉ part.toList := by
  induction h with
  | nil => exact ⟨rfl, nofun⟩
  | cons hx _ ih =>
    obtain ⟨⟨hkey, hvalue⟩, hrest⟩ := List.forall_mem_cons.1 hwidth
    obtain ⟨hpairs, hparts⟩ := ih hrest
    refine ⟨?_, List.forall_mem_cons.2 ⟨part_of_writesPair hx, hparts⟩⟩
    rw [List.mapM_cons, pair_of_writesPair hx hkey hvalue, hpairs]
    rfl

/-- **A query text is read back as the pairs that it was written from.** -/
theorem ofQueryText_of_writes {pairs : List (String × String)} {query : String}
    (h : WritesQuery pairs query)
    (hwidth : ∀ x ∈ pairs, Utf8.width x.1 ≤ maxOctets ∧ Utf8.width x.2 ≤ maxOctets) :
    ofQueryText query = .ok (ofPairs pairs) := by
  obtain ⟨parts, hparts, rfl⟩ := h
  obtain ⟨hpairs, hclean⟩ := mapM_pair_of_writes hparts hwidth
  rw [ofQueryText_join hclean, hpairs]
  rfl

/-! ## Objects -/

/-- The object that holds the values of each key as an array. -/
def jsonOf (pairs : List (String × String)) : Json :=
  Json.ofFields ((pairs.map Prod.fst).map fun key => (key, Json.ofTexts (valuesOf key pairs)))

/-- Parameters are determined by the values of each key. -/
theorem ofPairs_eq_of_valuesOf {pairs pairs' : List (String × String)}
    (h : ∀ key, valuesOf key pairs = valuesOf key pairs') : ofPairs pairs = ofPairs pairs' := by
  have hget : (ofPairs pairs).entries = (ofPairs pairs').entries := Dict.ext_get? fun key => by
    change (ofPairs pairs).get? key = (ofPairs pairs').get? key
    rw [get?_ofPairs, get?_ofPairs, h]
  exact congrArg Parameters.mk hget

theorem valuesOf_append (key : String) (pairs pairs' : List (String × String)) :
    valuesOf key (pairs ++ pairs') = valuesOf key pairs ++ valuesOf key pairs' := by
  rw [valuesOf, List.filter_append, List.map_append]
  rfl

/-- A key with each of its values, for every entry. -/
def spread (entries : List (String × List String)) : List (String × String) :=
  entries.flatMap fun e => e.2.map fun value => (e.1, value)

theorem valuesOf_spread_singleton (key k : String) (values : List String) :
    valuesOf key (spread [(k, values)]) = if key = k then values else [] := by
  rw [spread, List.flatMap_singleton]
  by_cases hkey : key = k
  · subst hkey
    simp [valuesOf, List.filter_map, Function.comp_def]
  · simp [valuesOf, List.filter_map, Function.comp_def, Ne.symm hkey, hkey]

/-- The values of a key among the entries of a dictionary are those at the key. -/
theorem valuesOf_spread {entries : List (String × List String)} (h : Entries.Ordered entries)
    (key : String) : valuesOf key (spread entries) = (Entries.get? key entries).getD [] := by
  induction entries with
  | nil => rfl
  | cons e rest ih =>
    obtain ⟨k, values⟩ := e
    obtain ⟨hlt, hrest⟩ := List.pairwise_cons.1 h
    have hcons : spread ([(k, values)] ++ rest) = spread [(k, values)] ++ spread rest :=
      List.flatMap_append
    change valuesOf key (spread ([(k, values)] ++ rest)) = _
    rw [hcons, valuesOf_append, valuesOf_spread_singleton, ih hrest, Entries.get?_cons]
    by_cases hkey : key = k
    · subst hkey
      rw [if_pos rfl, if_pos rfl, Entries.get?_eq_none_of_lt hlt]
      exact List.append_nil _
    · rw [if_neg hkey, if_neg hkey]
      rfl

/-- An array of texts has these values. -/
theorem fieldValues_ofTexts (key : String) (values : List String) :
    fieldValues key (Json.ofTexts values) = .ok values := by
  change (values.map Json.text).mapM (scalarText key) = .ok values
  induction values with
  | nil => rfl
  | cons value values ih =>
    rw [List.map_cons, List.mapM_cons, ih]
    rfl

/-- An object whose fields are arrays of texts is read field by field. -/
theorem ofJson_ofTexts (entries : List (String × List String)) :
    ofJson (.object (entries.map fun e => (e.1, Json.ofTexts e.2))) =
      .ok (ofPairs (spread entries)) := by
  change List.foldlM _ empty _ = Except.ok (empty.pushAll (spread entries))
  generalize empty = p
  induction entries generalizing p with
  | nil => rfl
  | cons e rest ih =>
    have hspread : p.pushAll (spread (e :: rest)) =
        (p.pushAll (e.2.map fun value => (e.1, value))).pushAll (spread rest) :=
      List.foldl_append
    rw [List.map_cons, List.foldlM_cons, hspread, ← ih]
    change (fieldValues e.1 (Json.ofTexts e.2) >>= _) >>= _ = _
    rw [fieldValues_ofTexts]
    rfl

theorem valuesOf_eq_nil_iff {key : String} {pairs : List (String × String)} :
    valuesOf key pairs = [] ↔ key ∉ pairs.map Prod.fst := by
  rw [valuesOf, List.map_eq_nil_iff, List.filter_eq_nil_iff]
  constructor
  · intro h hmem
    obtain ⟨pair, hpair, hkey⟩ := List.mem_map.1 hmem
    exact h pair hpair (decide_eq_true hkey)
  · intro h pair hpair hkey
    exact h (List.mem_map.2 ⟨pair, hpair, of_decide_eq_true hkey⟩)

/-- The fields of the object are the parameters of the pairs. -/
theorem jsonOf_eq (pairs : List (String × String)) :
    jsonOf pairs = .object ((ofPairs pairs).toList.map fun e => (e.1, Json.ofTexts e.2)) := by
  refine congrArg Json.object (Entries.eq_of_get?_eq (Dict.ordered _)
    (Entries.ordered_map _ (ofPairs pairs).entries.ordered) fun key => ?_)
  have hget : Entries.get? key (ofPairs pairs).toList = (ofPairs pairs).get? key := rfl
  rw [Entries.get?_map, hget, get?_ofPairs]
  change (Dict.ofList _).get? key = _
  rw [Dict.get?_ofList_map]
  by_cases hkey : key ∈ pairs.map Prod.fst
  · rw [if_pos hkey, if_neg (not_not.2 hkey ∘ valuesOf_eq_nil_iff.1)]
    rfl
  · rw [if_neg hkey, if_pos (valuesOf_eq_nil_iff.2 hkey)]
    rfl

/-- The same parameters come from the object that holds the values of each key. -/
theorem ofJson_jsonOf (pairs : List (String × String)) :
    ofJson (jsonOf pairs) = .ok (ofPairs pairs) := by
  rw [jsonOf_eq, ofJson_ofTexts]
  refine congrArg Except.ok (ofPairs_eq_of_valuesOf fun key => ?_)
  refine (valuesOf_spread (ofPairs pairs).entries.ordered key).trans ?_
  change ((ofPairs pairs).get? key).getD [] = _
  rw [get?_ofPairs]
  split
  · next hnone => exact hnone.symm
  · rfl

/-- **However pairs are written as a query text, they are read back**, and the object that holds the
values of each key gives the same parameters. -/
theorem intake_of_writes {pairs : List (String × String)} {query : String}
    (h : WritesQuery pairs query)
    (hwidth : ∀ x ∈ pairs, Utf8.width x.1 ≤ maxOctets ∧ Utf8.width x.2 ≤ maxOctets) :
    ofQueryText query = .ok (ofPairs pairs) ∧ ofJson (jsonOf pairs) = .ok (ofPairs pairs) :=
  ⟨ofQueryText_of_writes h hwidth, ofJson_jsonOf pairs⟩

/-- A repeated key with an escaped separator, an empty key, an escaped character of two octets, a
space and an empty value. -/
def mixedPairs : List (String × String) := [("k=", "a b"), ("", "é"), ("k=", "")]

theorem mixedPairs_written : WritesQuery mixedPairs "%6b%3D=a+b&=%c3%A9&k%3d=" := by
  have escape {octet : UInt8} {high low : Char} (hhigh : IsDigit (octet.toNat / 16) high)
      (hlow : IsDigit (octet.toNat % 16) low) {c : Char} (hc : String.utf8EncodeChar c = [octet])
      (reserved : List Char) : WritesChar reserved c ['%', high, low] := by
    have hoctets : List.Forall₂ WritesOctet (String.utf8EncodeChar c) [['%', high, low]] := by
      rw [hc]
      exact .cons (.mk hhigh hlow) .nil
    exact .escaped hoctets
  have hkey : WritesText reservedInKeys "k=".toList "%6b%3D".toList :=
    .cons (escape (.inl rfl) (.inl rfl) rfl _) (.cons (escape (.inl rfl) (.inr rfl) rfl _) .nil)
  have hspace : WritesText reservedInValues "a b".toList "a+b".toList :=
    .cons (.itself (by decide)) (.cons .plus (.cons (.itself (by decide)) .nil))
  have haccent : WritesText reservedInValues "é".toList "%c3%A9".toList := by
    have hoctets : List.Forall₂ WritesOctet (String.utf8EncodeChar 'é')
        ["%c3".toList, "%A9".toList] :=
      .cons (.mk (.inl rfl) (.inl rfl)) (.cons (.mk (.inr rfl) (.inr rfl)) .nil)
    exact .cons (.escaped hoctets) .nil
  have hagain : WritesText reservedInKeys "k=".toList "k%3d".toList :=
    .cons (.itself (by decide)) (.cons (escape (.inl rfl) (.inl rfl) rfl _) .nil)
  exact ⟨_, .cons (.mk hkey hspace) (.cons (.mk .nil haccent) (.cons (.mk hagain .nil) .nil)),
    by decide⟩

theorem intake_of_writes_mixed :
    WritesQuery mixedPairs "%6b%3D=a+b&=%c3%A9&k%3d=" ∧
      (∀ x ∈ mixedPairs, Utf8.width x.1 ≤ maxOctets ∧ Utf8.width x.2 ≤ maxOctets) ∧
      ofQueryText "%6b%3D=a+b&=%c3%A9&k%3d=" = .ok (ofPairs mixedPairs) ∧
      ofJson (jsonOf mixedPairs) = .ok (ofPairs mixedPairs) ∧
      (ofPairs mixedPairs).toList = [("", ["é"]), ("k=", ["a b", ""])] :=
  have hwidth : ∀ x ∈ mixedPairs, Utf8.width x.1 ≤ maxOctets ∧ Utf8.width x.2 ≤ maxOctets := by
    decide
  have h := intake_of_writes mixedPairs_written hwidth
  ⟨mixedPairs_written, hwidth, h.1, h.2, by decide⟩

end Parameters

end RequestQuery
