import RequestQuery.Proofs.NumericOptions
import RequestQuery.Proofs.WrittenQuery

/-!
# Options as they are written

The options of a request can be written out as parameters: the filter as it is, a sort key with a
sign before its column, numbers in decimal, truth values in any case, and lists with commas, under
one key or several. However the choices are made, validation gives the options back, when nothing in
them is lost in writing: a filter is not blank, the columns to sort by are identifiers, the numbers
are within their bounds, and the entries of lists are not empty, have no commas, and neither begin
nor end with blanks.

* `Text.Spread`: how the entries of a list may be written.
* `SortKey.Writes`, `Options.Writes`: how a sort key and all options may be written.
* `Options.Writable`: nothing is lost in writing.
* `Options.pairs`: one way to write any options.
* `Options.validate_of_writes`: **what is written is read back.**
-/

namespace RequestQuery

open Fallible

/-! ## Entries of lists -/

namespace Text

/-- A text that can be an entry of a list. -/
structure IsEntry (s : String) : Prop where
  ne_empty : s ≠ ""
  no_comma : ',' ∉ s.toList
  first : ∀ c ∈ s.toList.head?, isBlank c = false
  last : ∀ c ∈ s.toList.getLast?, isBlank c = false

/-- A character that may be absent is no blank. -/
theorem all_isBlank_iff {c? : Option Char} :
    c?.all (!isBlank ·) = true ↔ ∀ c ∈ c?, isBlank c = false := by
  cases c? <;> simp

instance (s : String) : Decidable (IsEntry s) :=
  decidable_of_iff (s ≠ "" ∧ ',' ∉ s.toList ∧ s.toList.head?.all (!isBlank ·) = true ∧
      s.toList.getLast?.all (!isBlank ·) = true)
    ⟨fun ⟨hne, hcomma, hfirst, hlast⟩ =>
        ⟨hne, hcomma, all_isBlank_iff.1 hfirst, all_isBlank_iff.1 hlast⟩,
      fun h => ⟨h.ne_empty, h.no_comma, all_isBlank_iff.2 h.first, all_isBlank_iff.2 h.last⟩⟩

theorem toList_ne_nil {s : String} (h : s ≠ "") : s.toList ≠ [] := fun he =>
  h (String.toList_inj.1 he)

theorem IsEntry.trim_eq {s : String} (h : IsEntry s) : trim s = s := by
  have hcore : trimChars ([] ++ s.toList ++ []) = s.toList :=
    trimChars_append nofun nofun h.first h.last (toList_ne_nil h.ne_empty)
  rw [List.nil_append, List.append_nil] at hcore
  rw [← String.toList_inj, toList_trim, hcore]

/-- Values write the entries of a list: some entries each, with commas between them. -/
def Spread (entries values : List String) : Prop :=
  ∃ groups : List (List String), (∀ group ∈ groups, group ≠ []) ∧ groups.flatten = entries ∧
    values = groups.map (join ",")

/-- All entries in one value, or no value without entries. -/
def joined (entries : List String) : List String :=
  if entries = [] then [] else [join "," entries]

theorem spread_joined (entries : List String) : Spread entries (joined entries) := by
  unfold joined
  split
  · next h => exact ⟨[], nofun, h.symm, rfl⟩
  · next h => exact ⟨[entries], List.forall_mem_singleton.2 h, List.append_nil _, rfl⟩

/-- Entries without commas are split as they were written. -/
theorem Spread.flatMap_split {entries values : List String} (h : Spread entries values)
    (hentries : ∀ entry ∈ entries, ',' ∉ entry.toList) : values.flatMap (split ',') = entries := by
  obtain ⟨groups, hne, rfl, rfl⟩ := h
  have hsplit : ∀ group ∈ groups, split ',' (join "," group) = group := fun group hgroup =>
    split_join_of_notMem (hne group hgroup) fun entry hentry =>
      hentries entry (List.mem_flatten.2 ⟨group, hgroup, hentry⟩)
  rw [List.flatMap_map, List.flatMap_def, List.map_congr_left hsplit, List.map_id']

/-- The characters of names are no blanks and no commas. -/
theorem plain_of_isWordChar {c : Char} (h : Ascii.isWordChar c = true) :
    isBlank c = false ∧ c ≠ ',' := by
  have hrange : 48 ≤ c.toNat ∧ c.toNat ≤ 122 := by
    rw [Ascii.isWordChar, Char.isAlphanum, Bool.or_eq_true, Bool.or_eq_true,
      Ascii.isAlpha_iff_toNat, Char.isDigit_iff_toNat, beq_iff_eq] at h
    obtain (h | h) | rfl := h
    · omega
    · exact ⟨h.1, h.2.trans (by decide)⟩
    · decide
  constructor
  · simp only [isBlank, Bool.or_eq_false_iff, Bool.and_eq_false_iff, decide_eq_false_iff_not,
      beq_eq_false_iff_ne]
    omega
  · rintro rfl
    exact absurd hrange.1 (by decide)

/-- A text without blanks and commas is an entry. -/
theorem isEntry_of_forall {s : String} (hne : s.toList ≠ [])
    (h : ∀ c ∈ s.toList, isBlank c = false ∧ c ≠ ',') : IsEntry s where
  ne_empty := fun he => hne (by rw [he]; rfl)
  no_comma := fun hc => (h ',' hc).2 rfl
  first := fun c hc => (h c (List.mem_of_mem_head? hc)).1
  last := fun c hc => (h c (List.mem_of_mem_getLast? hc)).1

/-- A letter that the lower case changes is a letter of ASCII. -/
theorem toLower_eq_self_or_isAlpha (c : Char) : c.toLower = c ∨ c.isAlpha = true := by
  unfold Char.toLower
  split
  · next h =>
    have hupper : c.isUpper = true := decide_eq_true h
    exact .inr (Bool.or_eq_true_iff.2 (.inl hupper))
  · exact .inl rfl

/-- A word in any case is an entry. -/
theorem isEntry_of_sameLetters {s word : String} (h : Ascii.sameLetters s word = true)
    (hne : word ≠ "") (hword : (word.toList.map Char.toLower).all Ascii.isWordChar = true) :
    IsEntry s := by
  rw [Ascii.sameLetters_iff] at h
  rw [List.all_eq_true] at hword
  refine isEntry_of_forall ?_ fun c hc => plain_of_isWordChar ?_
  · intro hnil
    rw [hnil] at h
    exact toList_ne_nil hne (List.map_eq_nil_iff.1 h.symm)
  · rcases toLower_eq_self_or_isAlpha c with hlower | halpha
    · exact hword c (h ▸ List.mem_map.2 ⟨c, hc, hlower⟩)
    · rw [Ascii.isWordChar, Char.isAlphanum, halpha, Bool.true_or, Bool.true_or]

end Text

/-! ## Values of options -/

namespace Parameters

/-- The values of an option, of which there are none without its key. -/
def values (p : Parameters) (option : QueryOption) : List String := (p.get? option.key).getD []

theorem values_ofPairs (pairs : List (String × String)) (option : QueryOption) :
    (ofPairs pairs).values option = valuesOf option.key pairs := by
  rw [values, get?_ofPairs]
  split
  · next hnone => exact hnone.symm
  · rfl

/-- The keys of a list of pairs are those of the pairs. -/
theorem exists_of_mem_ofPairs {pairs : List (String × String)} {entry : String × List String}
    (h : entry ∈ (ofPairs pairs).toList) : ∃ pair ∈ pairs, pair.1 = entry.1 :=
  exists_of_get?_ofPairs (Entries.get?_eq_some_of_mem (ofPairs pairs).entries.ordered h)

/-- The values of an option among those of several options. -/
theorem valuesOf_spread_options (f : QueryOption → List String) (option : QueryOption)
    {options : List QueryOption} (h : options.Nodup) :
    valuesOf option.key (spread (options.map fun o => (o.key, f o))) =
      if option ∈ options then f option else [] := by
  induction options with
  | nil => rfl
  | cons o rest ih =>
    obtain ⟨hfresh, hrest⟩ := List.nodup_cons.1 h
    have hcons : spread ((o :: rest).map fun o => (o.key, f o)) =
        spread [(o.key, f o)] ++ spread (rest.map fun o => (o.key, f o)) := by
      rw [List.map_cons, spread, List.flatMap_cons, spread, List.flatMap_singleton, spread]
    rw [hcons, valuesOf_append, valuesOf_spread_singleton, ih hrest]
    by_cases ho : option = o
    · subst ho
      rw [if_pos rfl, if_neg hfresh, List.append_nil, if_pos List.mem_cons_self]
    · have hkey : option.key ≠ o.key := mt QueryOption.key_injective ho
      simp only [if_neg hkey, List.nil_append, List.mem_cons, ho, false_or]

end Parameters

namespace Options

variable {p : Parameters} {option : QueryOption} {contract : Contract} {limits : Limits}

theorem single?_of_values {value : Option String} (h : p.values option = value.toList) :
    single? p option = .ok value := by
  unfold single?
  unfold Parameters.values at h
  cases hget : p.get? option.key with
  | none =>
    rw [hget] at h
    cases value with
    | none => rfl
    | some text => cases h
  | some values =>
    rw [hget, Option.getD_some] at h
    subst h
    cases value <;> rfl

/-- A value that is there is read. -/
theorem single?_bind_readOr {α : Type} {absent a : α} {read : String → Except Rejection α}
    {value : String} (h : p.values option = [value]) (hread : read value = .ok a) :
    (single? p option >>= readOr absent read) = .ok a := by
  have hsingle : single? p option = .ok (some value) := single?_of_values h
  rw [hsingle]
  exact hread

/-- **Entries are read back from the values that write them.** -/
theorem entries_of_spread {written : List String} (h : Text.Spread written (p.values option))
    (hwritten : ∀ entry ∈ written, Text.IsEntry entry) : entries p option = written := by
  have htrim : written.map Text.trim = written := by
    rw [List.map_congr_left fun entry hentry => (hwritten entry hentry).trim_eq, List.map_id']
  change (((p.values option).flatMap (Text.split ',')).map Text.trim).filter (· ≠ "") = written
  rw [h.flatMap_split fun entry hentry => (hwritten entry hentry).no_comma, htrim,
    List.filter_eq_self]
  exact fun entry hentry => decide_eq_true (hwritten entry hentry).ne_empty

end Options

/-! ## Sort keys -/

/-- How a sort key may be written: a minus sign before the column for the descending direction, a
plus sign or nothing for the ascending one. -/
inductive SortKey.Writes : SortKey → String → Prop
  | minus (column : String) : Writes ⟨column, .descending⟩ ("-" ++ column)
  | plus (column : String) : Writes ⟨column, .ascending⟩ ("+" ++ column)
  | plain (column : String) : Writes ⟨column, .ascending⟩ column

namespace SortKey

/-- A sort key as it is written in full. -/
def text (key : SortKey) : String :=
  match key.direction with
  | .descending => "-" ++ key.column
  | .ascending => "+" ++ key.column

theorem writes_text (key : SortKey) : key.Writes key.text := by
  obtain ⟨column, _ | _⟩ := key
  · exact .plus column
  · exact .minus column

/-- The column of a sort key can be one of a statement. -/
def IsSound (key : SortKey) : Prop := Sql.Identifier.flaw? key.column = none

instance (key : SortKey) : Decidable key.IsSound := inferInstanceAs (Decidable (_ = _))

variable {key : SortKey} {written : String}

theorem IsSound.exists_cons (h : key.IsSound) : ∃ c cs, key.column.toList = c :: cs ∧
    Ascii.isWordStart c = true ∧ ∀ d ∈ c :: cs, Ascii.isWordChar d = true := by
  obtain ⟨c, cs, hcolumn, hc, hcs⟩ := Ascii.isWord_iff.1 (Sql.Identifier.isWord_text ⟨_, h⟩)
  exact ⟨c, cs, hcolumn, hc, List.forall_mem_cons.2 ⟨Ascii.isWordChar_of_isWordStart hc, hcs⟩⟩

theorem IsSound.isEntry (h : key.IsSound) (hwritten : key.Writes written) :
    Text.IsEntry written := by
  obtain ⟨c, cs, hcolumn, -, hchars⟩ := h.exists_cons
  have hplain : ∀ d ∈ c :: cs, Text.isBlank d = false ∧ d ≠ ',' := fun d hd =>
    Text.plain_of_isWordChar (hchars d hd)
  have hentry (sign : List Char) (hsign : ∀ d ∈ sign, Text.isBlank d = false ∧ d ≠ ',')
      (htext : written.toList = sign ++ c :: cs) : Text.IsEntry written := by
    refine Text.isEntry_of_forall ?_ ?_
    · rw [htext]
      exact List.append_ne_nil_of_right_ne_nil _ (List.cons_ne_nil c cs)
    · rw [htext]
      exact List.forall_mem_append.2 ⟨hsign, hplain⟩
  cases hwritten with
  | minus column =>
    exact hentry ['-'] (List.forall_mem_singleton.2 ⟨rfl, by decide⟩)
      (by rw [String.toList_append, hcolumn]; rfl)
  | plus column =>
    exact hentry ['+'] (List.forall_mem_singleton.2 ⟨rfl, by decide⟩)
      (by rw [String.toList_append, hcolumn]; rfl)
  | plain column => exact hentry [] nofun hcolumn

theorem IsSound.sortSign_eq (h : key.IsSound) (hwritten : key.Writes written) :
    Options.sortSign written = (key.direction, key.column) := by
  obtain ⟨c, cs, hcolumn, hc, hchars⟩ := h.exists_cons
  have hstart : Text.trimStart (String.ofList key.column.toList) = key.column := by
    have hfirst : ∀ d ∈ key.column.toList.head?, Text.isBlank d = false := by
      rw [hcolumn]
      intro d hd
      obtain rfl : c = d := Option.some.inj hd
      exact (Text.plain_of_isWordChar (hchars _ List.mem_cons_self)).1
    rw [← String.toList_inj, Text.toList_trimStart, String.toList_ofList,
      Text.dropBlanks_eq_self hfirst]
  cases hwritten with
  | minus column =>
    have htext : ("-" ++ column).toList = '-' :: column.toList := String.toList_append
    rw [Options.sortSign, htext]
    exact congrArg (Prod.mk Sql.Direction.descending) hstart
  | plus column =>
    have htext : ("+" ++ column).toList = '+' :: column.toList := String.toList_append
    rw [Options.sortSign, htext]
    exact congrArg (Prod.mk Sql.Direction.ascending) hstart
  | plain column =>
    rw [Options.sortSign.eq_def]
    split
    · next rest hrest =>
      cases (List.cons.inj (hcolumn.symm.trans hrest)).1
      cases hc
    · next rest hrest =>
      cases (List.cons.inj (hcolumn.symm.trans hrest)).1
      cases hc
    · rfl

/-- **A sort key is read back**, where any column may be sorted by. -/
theorem IsSound.readSort_eq (h : key.IsSound) (hwritten : key.Writes written) {contract : Contract}
    (hsortable : contract.sortable = none) : Options.readSort contract written = .ok key := by
  obtain ⟨c, cs, hcolumn, -, -⟩ := h.exists_cons
  have hne : key.column ≠ "" := fun he => by
    rw [he] at hcolumn
    cases hcolumn
  unfold Options.readSort
  rw [h.sortSign_eq hwritten, hsortable]
  exact if_neg hne

/-- **Sort keys are read back** in their order, each from an entry of its own. -/
theorem mapM_readSort {keys : List SortKey} {texts : List String}
    (h : List.Forall₂ Writes keys texts) (hkeys : ∀ key ∈ keys, key.IsSound) {contract : Contract}
    (hsortable : contract.sortable = none) :
    (∀ text ∈ texts, Text.IsEntry text) ∧ texts.mapM (Options.readSort contract) = .ok keys := by
  induction h with
  | nil => exact ⟨nofun, rfl⟩
  | @cons key written keys texts hwritten _ ih =>
    obtain ⟨hkey, hkeys⟩ := List.forall_mem_cons.1 hkeys
    obtain ⟨hentries, hread⟩ := ih hkeys
    refine ⟨List.forall_mem_cons.2 ⟨hkey.isEntry hwritten, hentries⟩, ?_⟩
    rw [List.mapM_cons, hkey.readSort_eq hwritten hsortable, hread]
    rfl

end SortKey

/-! ## Options -/

namespace Options

/-- The word of a truth value. -/
def boolWord : Bool → String
  | true => "true"
  | false => "false"

/-- How options may be written as parameters: each under its own key, an absent one under none. -/
structure Writes (o : Options) (p : Parameters) : Prop where
  keys : ∀ entry ∈ p.toList, ∃ option : QueryOption, entry.1 = option.key
  filter : p.values .filter = o.filter.toList
  sort : ∃ texts, List.Forall₂ SortKey.Writes o.sort texts ∧ Text.Spread texts (p.values .sort)
  skip : ∃ text : Option String, p.values .skip = text.toList ∧
    Option.Rel (fun (n : UInt64) s => Text.WritesInteger s n.toNat) o.skip text
  top : ∃ text, p.values .top = [text] ∧ Text.WritesInteger text o.top.toNat
  expand : Text.Spread o.expand (p.values .expand)
  select : Text.Spread o.select (p.values .select)
  count : ∃ text, p.values .count = [text] ∧ Ascii.sameLetters text (boolWord o.count) = true

/-- Options of which nothing is lost in writing. -/
structure Writable (o : Options) (limits : Limits) : Prop where
  filter : ∀ text ∈ o.filter, Text.trim text ≠ ""
  sort : ∀ key ∈ o.sort, key.IsSound
  skip : ∀ n ∈ o.skip, n.toNat ≤ 9223372036854775807
  top : 1 ≤ o.top.toNat ∧ o.top.toNat ≤ limits.maxTop.toNat
  expand : ∀ entry ∈ o.expand, Text.IsEntry entry
  select : ∀ entry ∈ o.select, Text.IsEntry entry

variable {o : Options} {p : Parameters} {contract : Contract} {limits : Limits}

theorem readCount_of_sameLetters {text : String} {b : Bool}
    (h : Ascii.sameLetters text (boolWord b) = true) : readCount text = .ok b := by
  have hword : ((boolWord b).toList.map Char.toLower).all Ascii.isWordChar = true := by
    cases b <;> decide
  have hentry : Text.IsEntry text :=
    Text.isEntry_of_sameLetters h (by cases b <;> decide) hword
  unfold readCount
  simp only [hentry.trim_eq]
  cases b with
  | true => exact if_pos h
  | false =>
    have hfalse : Ascii.sameLetters text "false" = true := h
    rw [Ascii.sameLetters_eq_false hfalse (by decide), hfalse]
    rfl

/-- A filter that is not blank is taken as it is. -/
theorem readOr_filter {filter : Option String} (h : ∀ text ∈ filter, Text.trim text ≠ "") :
    readOr none (fun value => some <$> readFilter value) filter = .ok filter := by
  cases filter with
  | none => rfl
  | some text =>
    rw [readOr, readFilter, if_neg (h text rfl)]
    rfl

/-- A written skip is read back. -/
theorem readOr_skip {skip : Option UInt64} {text : Option String}
    (hskip : ∀ n ∈ skip, n.toNat ≤ 9223372036854775807)
    (h : Option.Rel (fun (n : UInt64) s => Text.WritesInteger s n.toNat) skip text) :
    readOr none (fun value => some <$> readSkip value) text = .ok skip := by
  cases h with
  | none => rfl
  | @some n s hwrites =>
    have hmax : (n.toNat : Int) ≤ Decimal.maxInt64 := by
      have := hskip n rfl
      unfold Decimal.maxInt64
      omega
    exact map_eq_ok.2 ⟨n, readSkip_eq_ok_iff.2 ⟨hwrites, Int.natCast_nonneg _, hmax⟩, rfl⟩

theorem checkKey_eq_ok (hdisabled : contract.disabled = []) (option : QueryOption)
    (values : List String) : checkKey contract option.key values = .ok () := by
  unfold checkKey
  simp only [QueryOption.ofKey?_key, Contract.allows, hdisabled]
  rfl

/-- **Options that are written are read back**, stage by stage. -/
theorem Writes.reads (h : o.Writes p) (ho : o.Writable limits) (hdisabled : contract.disabled = [])
    (hsortable : contract.sortable = none) : Reads p contract limits o where
  keys := fun entry hentry => by
    obtain ⟨option, hkey⟩ := h.keys entry hentry
    rw [hkey, checkKey_eq_ok hdisabled]
  filter := by
    rw [single?_of_values h.filter]
    exact readOr_filter ho.filter
  top := by
    obtain ⟨text, htext, hwrites⟩ := h.top
    have hbounds : 1 ≤ (o.top.toNat : Int) ∧ (o.top.toNat : Int) ≤ limits.maxTop.toNat := by
      have := ho.top
      omega
    exact single?_bind_readOr htext (readTop_eq_ok_iff.2 ⟨hwrites, hbounds⟩)
  skip := by
    obtain ⟨text, htext, hwrites⟩ := h.skip
    rw [single?_of_values htext]
    exact readOr_skip ho.skip hwrites
  count := by
    obtain ⟨text, htext, hletters⟩ := h.count
    exact single?_bind_readOr htext (readCount_of_sameLetters hletters)
  sort := by
    obtain ⟨texts, htexts, hspread⟩ := h.sort
    obtain ⟨hentries, hread⟩ := SortKey.mapM_readSort htexts ho.sort hsortable
    rw [entries_of_spread hspread hentries, hread]
  expand := (entries_of_spread h.expand ho.expand).symm
  select := (entries_of_spread h.select ho.select).symm

/-! ## One way to write options -/

/-- The digits of a number in decimal. -/
def decimal (n : ℕ) : String := String.ofList (Nat.toDigits 10 n)

theorem writesInteger_decimal (n : ℕ) : Text.WritesInteger (decimal n) n := by
  have hdigits : ∀ c ∈ Nat.toDigits 10 n, c.isDigit = true := fun c hc =>
    Nat.isDigit_of_mem_toDigits (by decide) (by decide) hc
  have hwrites := Decimal.Writes.unsigned Nat.toDigits_ne_nil hdigits
  rw [Nat.ofDigitChars_ten_toDigits] at hwrites
  exact ⟨[], _, [], by rw [decimal, String.toList_ofList]; simp, nofun, nofun, hwrites⟩

/-- The values under which options are written when lists are not spread over several. -/
def values (o : Options) : QueryOption → List String
  | .filter => o.filter.toList
  | .sort => Text.joined (o.sort.map SortKey.text)
  | .skip => (o.skip.map fun n => decimal n.toNat).toList
  | .top => [decimal o.top.toNat]
  | .expand => Text.joined o.expand
  | .select => Text.joined o.select
  | .count => [boolWord o.count]

/-- Options as pairs of keys and values. -/
def pairs (o : Options) : List (String × String) :=
  Parameters.spread (QueryOption.all.map fun option => (option.key, o.values option))

theorem values_pairs (o : Options) (option : QueryOption) :
    (Parameters.ofPairs o.pairs).values option = o.values option := by
  rw [Parameters.values_ofPairs, pairs, Parameters.valuesOf_spread_options _ _ (by decide),
    if_pos option.mem_all]

/-- **Any options can be written.** -/
theorem writes_pairs (o : Options) : o.Writes (.ofPairs o.pairs) where
  keys := fun entry hentry => by
    obtain ⟨pair, hpair, hkey⟩ := Parameters.exists_of_mem_ofPairs hentry
    obtain ⟨e, he, hpair⟩ := List.mem_flatMap.1 hpair
    obtain ⟨option, -, rfl⟩ := List.mem_map.1 he
    obtain ⟨value, -, rfl⟩ := List.mem_map.1 hpair
    exact ⟨option, hkey.symm⟩
  filter := o.values_pairs .filter
  sort := by
    refine ⟨o.sort.map SortKey.text, ?_, ?_⟩
    · rw [List.forall₂_map_right_iff, List.forall₂_same]
      exact fun key _ => key.writes_text
    · rw [values_pairs]
      exact Text.spread_joined _
  skip := by
    have hvalues := o.values_pairs .skip
    refine ⟨_, hvalues, ?_⟩
    cases o.skip with
    | none => exact .none
    | some n => exact .some (writesInteger_decimal n.toNat)
  top := ⟨_, o.values_pairs .top, writesInteger_decimal _⟩
  expand := by
    rw [values_pairs]
    exact Text.spread_joined _
  select := by
    rw [values_pairs]
    exact Text.spread_joined _
  count := ⟨_, o.values_pairs .count, Ascii.sameLetters_self _⟩

/-- **Options that are written out are read back.** Any options can be written as parameters, and
where nothing is lost in writing, validation gives the same options for whatever parameters write
them, with any page limits that admit their page and any contract that neither disables an option
nor restricts sorting. -/
theorem validate_of_writes {o : Options} {limits : Limits} {contract : Contract}
    (ho : o.Writable limits) (hdisabled : contract.disabled = [])
    (hsortable : contract.sortable = none) :
    o.Writes (.ofPairs o.pairs) ∧ ∀ p, o.Writes p → validate p contract limits = .ok o :=
  ⟨o.writes_pairs, fun _ h => validate_eq_ok.2 (h.reads ho hdisabled hsortable)⟩

/-- The options of a request for a report. -/
def reportOptions : Options where
  filter := some " total gt 5 "
  sort := [⟨"total", .descending⟩, ⟨"name", .ascending⟩, ⟨"total", .ascending⟩]
  skip := some 9223372036854775807
  top := 100
  expand := ["orders", "orders/items"]
  select := ["name"]
  count := true

/-- The same options under keys in any order, of which some are repeated. -/
def reportPairs : List (String × String) :=
  [("$count", "TRUE"), ("$sort", "-total,+name"), ("$expand", "orders"), ("$top", "100"),
    ("$filter", " total gt 5 "), ("$skip", "9223372036854775807"), ("$expand", "orders/items"),
    ("$sort", "total"), ("$select", "name")]

theorem validate_of_writes_report : reportOptions.Writable {} ∧
    reportOptions.Writes (.ofPairs reportOptions.pairs) ∧
      reportOptions.Writes (.ofPairs reportPairs) ∧
        validate (.ofPairs reportPairs) {} {} = .ok reportOptions := by
  have hwritable : reportOptions.Writable {} := {
    filter := by decide
    sort := by decide
    skip := fun n hn => by cases hn; decide
    top := by decide
    expand := by decide
    select := by decide }
  have hskip : decimal 9223372036854775807 = "9223372036854775807" := by decide +kernel
  have hkeys : ∀ pair ∈ reportPairs, (QueryOption.ofKey? pair.1).isSome = true := by decide +kernel
  have hwrites : reportOptions.Writes (.ofPairs reportPairs) := {
    keys := fun entry hentry => by
      obtain ⟨pair, hpair, hkey⟩ := Parameters.exists_of_mem_ofPairs hentry
      obtain ⟨option, hoption⟩ := Option.isSome_iff_exists.1 (hkeys pair hpair)
      exact ⟨option, hkey.symm.trans (QueryOption.key_of_ofKey? hoption).symm⟩
    filter := by decide +kernel
    sort := ⟨["-total", "+name", "total"],
      .cons (.minus _) (.cons (.plus _) (.cons (.plain _) .nil)),
      [["-total", "+name"], ["total"]], by decide, rfl, by decide +kernel⟩
    skip := ⟨some "9223372036854775807", by decide +kernel, .some (hskip ▸ writesInteger_decimal _)⟩
    top := ⟨"100", by decide +kernel, writesInteger_decimal 100⟩
    expand := ⟨[["orders"], ["orders/items"]], by decide, rfl, by decide +kernel⟩
    select := ⟨[["name"]], by decide, rfl, by decide +kernel⟩
    count := ⟨"TRUE", by decide +kernel, by decide⟩ }
  have h : reportOptions.Writes (.ofPairs reportOptions.pairs) ∧
      ∀ p, reportOptions.Writes p → validate p {} {} = .ok reportOptions :=
    validate_of_writes hwritable rfl rfl
  exact ⟨hwritable, h.1, hwrites, h.2 _ hwrites⟩

end Options

end RequestQuery
