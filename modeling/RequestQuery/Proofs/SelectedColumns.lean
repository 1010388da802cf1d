import Mathlib.Data.List.Infix
import RequestQuery.Proofs.ResolvedTree

/-!
# Selections and their levels

A selection is noted twice, in its own lists and at the levels of the expansion. Its entries count
once each when they are normalized, and each asks for a column of the root or, after a path, for one
of a level. So the selection is made exactly when there are not too many entries and each asks for a
column that may be selected, and then both records say the same: at every path stand the columns
that the entries ask for there, in their order, and nothing else of the expansion has changed.

* `Text.splitLast?_eq_some_iff`: what stands around the last separator of a text.
* `Expansion.mapLevels`: an expansion with its levels changed, and no branch added or dropped.
* `Selection.columnsAt`: the columns that entries ask for at a path.
* `Selection.Describes`, `Selection.Describes.addEntry`: what the entries so far have left, and what
  one more entry does.
* `Selection.build_exact`: when a selection is made, and what it is.
-/

namespace RequestQuery

open Fallible

/-! ## The last separator -/

namespace Text

variable {sep : Char} {s before after : String}

theorem splitLast?_append (h : sep ∉ after.toList) :
    splitLast? sep (before ++ String.singleton sep ++ after) = some (before, after) := by
  have htext : (before ++ String.singleton sep ++ after).toList.reverse =
      after.toList.reverse ++ sep :: before.toList.reverse := by
    simp
  have hafter : ∀ c ∈ after.toList.reverse, decide (c ≠ sep) = true := fun c hc =>
    decide_eq_true fun he => h (he ▸ List.mem_reverse.1 hc)
  have hsep : ∀ c ∈ (sep :: before.toList.reverse).head?, decide (c ≠ sep) = false := by simp
  rw [splitLast?, htext, List.span_eq_takeWhile_dropWhile, takeWhile_append_of_head hafter hsep,
    dropWhile_append_of_head hafter hsep]
  simp only [List.reverse_reverse, String.ofList_toList]

theorem splitLast?_of_notMem (h : sep ∉ s.toList) : splitLast? sep s = none := by
  have hall : ∀ c ∈ s.toList.reverse, decide (c ≠ sep) = true := fun c hc =>
    decide_eq_true fun he => h (he ▸ List.mem_reverse.1 hc)
  have hrest : (s.toList.reverse ++ []).dropWhile (· ≠ sep) = [] :=
    dropWhile_append_of_head hall nofun
  rw [List.append_nil] at hrest
  rw [splitLast?, List.span_eq_takeWhile_dropWhile, hrest]

/-- A text with a separator has a last one. -/
theorem exists_last (h : sep ∈ s.toList) :
    ∃ before after, s = before ++ String.singleton sep ++ after ∧ sep ∉ after.toList := by
  obtain ⟨after, before, hs, hafter⟩ := List.eq_append_cons_of_mem (List.mem_reverse.2 h)
  refine ⟨String.ofList before.reverse, String.ofList after.reverse, ?_, ?_⟩
  · apply String.toList_inj.1
    rw [← List.reverse_reverse s.toList, hs]
    simp
  · rwa [String.toList_ofList, List.mem_reverse]

theorem splitLast?_eq_none_iff : splitLast? sep s = none ↔ sep ∉ s.toList := by
  refine ⟨fun h hmem => ?_, splitLast?_of_notMem⟩
  obtain ⟨before, after, rfl, hafter⟩ := exists_last hmem
  cases (splitLast?_append hafter).symm.trans h

/-- What is given stands around the last separator. -/
theorem splitLast?_eq_some_iff : splitLast? sep s = some (before, after) ↔
    s = before ++ String.singleton sep ++ after ∧ sep ∉ after.toList := by
  constructor
  · intro h
    have hmem : sep ∈ s.toList := by
      by_contra hnone
      cases (splitLast?_of_notMem hnone).symm.trans h
    obtain ⟨before', after', rfl, hafter⟩ := exists_last hmem
    cases (splitLast?_append hafter).symm.trans h
    exact ⟨rfl, hafter⟩
  · rintro ⟨rfl, hafter⟩
    exact splitLast?_append hafter

end Text

/-! ## Changed levels -/

namespace Branch

mutual

/-- A branch with its level and the levels below it changed. -/
def mapLevel (f : Level → Level) : Branch → Branch
  | mk level branches => mk (f level) (mapLevels f branches)

/-- Branches with their levels and the levels below them changed. -/
def mapLevels (f : Level → Level) : List Branch → List Branch
  | [] => []
  | b :: rest => b.mapLevel f :: mapLevels f rest

end

section MapLevels

variable {f : Level → Level}

@[simp] theorem level_mapLevel (b : Branch) : (b.mapLevel f).level = f b.level := by
  cases b
  rw [mapLevel, level, level]

@[simp] theorem branches_mapLevel (b : Branch) :
    (b.mapLevel f).branches = mapLevels f b.branches := by
  cases b
  rw [mapLevel, branches, branches]

theorem mapLevels_eq_map (branches : List Branch) :
    mapLevels f branches = branches.map (mapLevel f) := by
  induction branches with
  | nil => rw [mapLevels, List.map_nil]
  | cons b rest ih => rw [mapLevels, List.map_cons, ih]

variable (hf : ∀ l, (f l).name = l.name)
include hf

theorem name_mapLevel (b : Branch) : (b.mapLevel f).name = b.name := by
  rw [name, level_mapLevel, hf, name]

theorem find?_mapLevels (name : String) (branches : List Branch) :
    find? name (mapLevels f branches) = (find? name branches).map (mapLevel f) := by
  rw [find?, mapLevels_eq_map, List.find?_map, find?]
  simp only [Function.comp_def, name_mapLevel hf]

/-- Changing levels commutes with looking a branch up. -/
theorem follow?_mapLevels (names : List String) (branches : List Branch) :
    follow? names (mapLevels f branches) = (follow? names branches).map (mapLevel f) := by
  induction names generalizing branches with
  | nil => rfl
  | cons first rest ih =>
    rw [follow?_cons, follow?_cons, find?_mapLevels hf]
    cases find? first branches with
    | none => rfl
    | some b =>
      cases rest with
      | nil => rfl
      | cons next rest =>
        change follow? (next :: rest) (b.mapLevel f).branches = _
        rw [branches_mapLevel, ih]
        rfl

theorem Ordered.mapLevels {branches : List Branch} (h : Ordered branches) :
    Ordered (mapLevels f branches) := by
  induction h with
  | @mk branches hnames _ ih =>
    rw [mapLevels_eq_map]
    refine .mk (List.pairwise_map.2 ?_) fun c hc => ?_
    · simpa only [name_mapLevel hf] using hnames
    · obtain ⟨b, hb, rfl⟩ := List.mem_map.1 hc
      rw [branches_mapLevel]
      exact ih b hb

end MapLevels

end Branch

namespace Expansion

/-- An expansion with its levels changed. -/
def mapLevels (f : Level → Level) (e : Expansion) : Expansion := ⟨Branch.mapLevels f e.branches⟩

/-- An expansion as it is built: the branches are in order, the path of each level is the way to it,
and nothing is selected. -/
structure Fresh (e : Expansion) : Prop where
  ordered : Branch.Ordered e.branches
  split_path : ∀ names b, Branch.follow? names e.branches = some b →
    Text.split '/' b.level.path = names
  selected_eq : ∀ names b, Branch.follow? names e.branches = some b → b.level.selected = []

theorem fresh_build {s : Schema} {root : String} {paths : List String} {limits : Limits}
    {e : Expansion} (h : build s root paths limits = .ok e) : e.Fresh := by
  obtain ⟨-, r, hr, -⟩ := build_eq_ok.1 h
  have hleads {names : List String} {b : Branch}
      (hb : Branch.follow? names e.branches = some b) :
      (∃ path ∈ paths, names <+: Expansion.names path) ∧ s.Leads [] r names b.level :=
    (holds_build hr h names b.level).1 (congrArg (Option.map Branch.level) hb)
  refine ⟨ordered_build h, fun names b hb => ?_, fun names b hb => ?_⟩
  · obtain ⟨⟨path, -, hbegins⟩, hl⟩ := hleads hb
    obtain ⟨before, _, _, _, hnames, -, -, -, hlevel⟩ := hl.of_last
    have hpath : b.level.path = Text.join "/" names := by
      rw [congrArg Level.path hlevel]
      rfl
    rw [hpath]
    exact Text.split_join_of_notMem (hnames ▸ List.concat_ne_nil _ before) fun name hname =>
      notMem_of_mem_names (hbegins.subset hname)
  · obtain ⟨_, _, _, _, -, -, -, -, hlevel⟩ := (hleads hb).2.of_last
    rw [congrArg Level.selected hlevel]
    rfl

end Expansion

/-! ## Columns at paths -/

namespace Selection

/-- The column that an entry asks for at a path: what follows the path and a slash. -/
def columnAt? (path entry : String) : Option String :=
  match (path.toList ++ ['/']).isPrefixOf? entry.toList with
  | some rest => if '/' ∈ rest then none else some (String.ofList rest)
  | none => none

/-- The columns that entries ask for at a path, in the order of the entries. -/
def columnsAt (path : String) (entries : List String) : List String :=
  entries.filterMap (columnAt? path)

/-- An entry that may be selected: a column that a request may name on the root, or the path of a
branch with a column that it may name on the resource that is read there. -/
def Selectable (s : Schema) (root : Resource) (e : Expansion) (entry : String) : Prop :=
  '/' ∉ entry.toList ∧ root.isAllowedColumn entry = true ∨
    ∃ path b target column, entry = path ++ "/" ++ column ∧ e.branch? path = some b ∧
      s.get? b.resource = some target ∧ target.isAllowedColumn column = true

end Selection

/-- A level with the columns that entries ask for at its path. -/
def Level.noting (entries : List String) (l : Level) : Level :=
  { l with selected := Selection.columnsAt l.path entries }

namespace Selection

variable {path column entry : String} {entries : List String}

theorem eq_path_append_iff : entry = path ++ "/" ++ column ↔
    (path.toList ++ ['/']) ++ column.toList = entry.toList := by
  rw [eq_comm, ← String.toList_inj, String.toList_append, String.toList_append]
  rfl

/-- An entry asks at a path for a column exactly when this is what stands around its last slash. -/
theorem columnAt?_eq_some_iff :
    columnAt? path entry = some column ↔ Text.splitLast? '/' entry = some (path, column) := by
  rw [Text.splitLast?_eq_some_iff]
  change _ ↔ entry = path ++ "/" ++ column ∧ _
  rw [eq_path_append_iff, columnAt?]
  constructor
  · intro h
    split at h
    · next rest hrest =>
      split at h
      · cases h
      · next hslash =>
        cases h
        rw [String.toList_ofList]
        exact ⟨List.append_eq_of_isPrefixOf?_eq_some hrest, hslash⟩
    · cases h
  · rintro ⟨htext, hslash⟩
    rw [List.isPrefixOf?_eq_some_iff_append_eq.2 htext]
    simp only [if_neg hslash, String.ofList_toList]

theorem columnAt?_of_plain (h : Text.splitLast? '/' entry = none) (path : String) :
    columnAt? path entry = none := by
  cases hcolumn : columnAt? path entry with
  | none => rfl
  | some column => cases h.symm.trans (columnAt?_eq_some_iff.1 hcolumn)

theorem columnAt?_of_split (h : Text.splitLast? '/' entry = some (path, column)) (other : String) :
    columnAt? other entry = if other = path then some column else none := by
  split
  · next he => exact columnAt?_eq_some_iff.2 (he ▸ h)
  · next hne =>
    cases hcolumn : columnAt? other entry with
    | none => rfl
    | some column' =>
      cases h.symm.trans (columnAt?_eq_some_iff.1 hcolumn)
      exact absurd rfl hne

theorem columnsAt_concat (path : String) (entries : List String) (entry : String) :
    columnsAt path (entries ++ [entry]) =
      columnsAt path entries ++ (columnAt? path entry).toList := by
  rw [columnsAt, List.filterMap_append, columnsAt]
  cases hcolumn : columnAt? path entry <;> simp [hcolumn]

/-- What an entry asks for is not asked for by others. -/
theorem notMem_columnsAt (h : Text.splitLast? '/' entry = some (path, column))
    (hnew : entry ∉ entries) : column ∉ columnsAt path entries := by
  intro hmem
  obtain ⟨other, hother, hcolumn⟩ := List.mem_filterMap.1 hmem
  have hsplit := columnAt?_eq_some_iff.1 hcolumn
  obtain ⟨hentry, -⟩ := Text.splitLast?_eq_some_iff.1 h
  obtain ⟨hsame, -⟩ := Text.splitLast?_eq_some_iff.1 hsplit
  exact hnew (hentry.trans hsame.symm ▸ hother)

end Selection

/-! ## One more column at a level -/

section Noting

variable {entries : List String} {entry path column : String}

theorem Level.name_noting (entries : List String) (l : Level) :
    (l.noting entries).name = l.name := rfl

theorem Level.noting_nil {l : Level} (h : l.selected = []) : l.noting [] = l := by
  cases l
  cases h
  rfl

theorem Level.noting_concat_plain (h : Text.splitLast? '/' entry = none) (l : Level) :
    l.noting (entries ++ [entry]) = l.noting entries := by
  rw [noting, Selection.columnsAt_concat, Selection.columnAt?_of_plain h, Option.toList_none,
    List.append_nil, noting]

theorem Level.noting_concat (h : Text.splitLast? '/' entry = some (path, column))
    (hnew : entry ∉ entries) (l : Level) : l.noting (entries ++ [entry]) =
      if l.path = path then (l.noting entries).select column else l.noting entries := by
  rw [noting, Selection.columnsAt_concat, Selection.columnAt?_of_split h]
  split
  · next hpath =>
    have hfresh : column ∉ (l.noting entries).selected := by
      change column ∉ Selection.columnsAt l.path entries
      rw [hpath]
      exact Selection.notMem_columnsAt h hnew
    rw [select, Columns.add, if_neg hfresh]
    rfl
  · rw [Option.toList_none, List.append_nil, noting]

theorem Text.split_inj {sep : Char} {s t : String} : split sep s = split sep t ↔ s = t := by
  refine ⟨fun h => ?_, congrArg _⟩
  rw [← join_split sep s, h, join_split]

namespace Expansion

variable {e e' : Expansion}

/-- Expansions in order are determined by the levels at their paths. -/
theorem eq_of_levels (h : Branch.Ordered e.branches) (h' : Branch.Ordered e'.branches)
    (hlevels : ∀ names, (Branch.follow? names e.branches).map Branch.level =
      (Branch.follow? names e'.branches).map Branch.level) : e = e' := by
  cases e
  cases e'
  exact congrArg mk (Branch.eq_of_levels h h' hlevels)

/-- An expansion with the columns that entries ask for. -/
def noting (entries : List String) (e : Expansion) : Expansion := e.mapLevels (Level.noting entries)

theorem ordered_noting (h : e.Fresh) (entries : List String) :
    Branch.Ordered (e.noting entries).branches :=
  Branch.Ordered.mapLevels (Level.name_noting entries) h.ordered

theorem follow?_noting (entries names : List String) (e : Expansion) :
    Branch.follow? names (e.noting entries).branches =
      (Branch.follow? names e.branches).map (Branch.mapLevel (Level.noting entries)) :=
  Branch.follow?_mapLevels (Level.name_noting entries) _ _

theorem level_follow?_noting (entries names : List String) (e : Expansion) :
    (Branch.follow? names (e.noting entries).branches).map Branch.level =
      (Branch.follow? names e.branches).map fun b => b.level.noting entries := by
  rw [follow?_noting, Option.map_map]
  exact congrArg (Option.map · _) (funext Branch.level_mapLevel)

theorem noting_nil (h : e.Fresh) : e.noting [] = e := by
  refine eq_of_levels (ordered_noting h []) h.ordered fun names => ?_
  rw [level_follow?_noting]
  exact Option.map_congr fun b hb => Level.noting_nil (h.selected_eq names b hb)

theorem noting_concat_plain (h : Text.splitLast? '/' entry = none) (e : Expansion) :
    e.noting (entries ++ [entry]) = e.noting entries :=
  congrArg (mapLevels · e) (funext (Level.noting_concat_plain h))

/-- **Selecting the column of one more entry is noting the entry.** -/
theorem select_noting (he : e.Fresh) (h : Text.splitLast? '/' entry = some (path, column))
    (hnew : entry ∉ entries) :
    (e.noting entries).select path column = e.noting (entries ++ [entry]) := by
  have hordered : Branch.Ordered ((e.noting entries).select path column).branches :=
    Branch.ordered_select _ _ (ordered_noting he entries)
  refine eq_of_levels hordered (ordered_noting he _) fun names => ?_
  change (Branch.follow? names (Branch.select ..)).map _ = _
  rw [Branch.level_follow?_select, level_follow?_noting, follow?_noting, Option.map_map]
  refine Option.map_congr fun b hb => ?_
  rw [Function.comp_apply, Branch.level_mapLevel, Level.noting_concat h hnew,
    ← he.split_path names b hb]
  simp only [Text.split_inj]

end Expansion

end Noting

/-- No column that a request may name has a slash. -/
theorem Resource.Fits.slash_notMem {resources : Dict Resource} {r : Resource}
    (h : r.Fits resources) {column : String} (hc : r.isAllowedColumn column = true) :
    '/' ∉ column.toList := by
  have hword := Sql.Identifier.isWord_text ⟨column, h.declared_valid (h.allowed_declared hc)⟩
  obtain ⟨c, cs, htext, hstart, hrest⟩ := Ascii.isWord_iff.1 hword
  change column.toList = c :: cs at htext
  rw [htext, List.mem_cons]
  rintro (rfl | hslash)
  · exact absurd hstart (by decide)
  · exact absurd (hrest _ hslash) (by decide)

/-! ## Selections -/

namespace Selection

variable {s : Schema} {root : Resource} {bare : Expansion} {done : List String}
  {sofar next : Selection × Expansion} {entry : String}

theorem addEntry_eq_ok : addEntry s root sofar entry = .ok next ↔ Adds s root sofar entry next := by
  refine ⟨adds_of_addEntry, fun h => ?_⟩
  obtain ⟨sel, e⟩ := sofar
  cases h with
  | root hplain hc =>
    simp only [addEntry, hplain, addRoot, if_pos hc]
    rfl
  | nested hsplit hb htarget hc =>
    simp only [addEntry, hsplit, hb, htarget, if_pos hc]
    rfl

/-- What the entries so far have left: the columns of the root and those of each path in the
selection, and the same at the levels of an expansion that is otherwise as it was. -/
structure Describes (bare : Expansion) (done : List String) (sofar : Selection × Expansion) :
    Prop where
  topLevel_eq : sofar.1.topLevel = done.filter fun entry => '/' ∉ entry.toList
  nested_iff : ∀ path columns, sofar.1.nested.get? path = some columns ↔
    columns ≠ [] ∧ columns = columnsAt path done
  expansion_eq : sofar.2 = bare.noting done

theorem describes_empty (h : bare.Fresh) : Describes bare [] (empty, bare) where
  topLevel_eq := rfl
  nested_iff path columns := by
    refine ⟨nofun, fun ⟨hne, hcolumns⟩ => absurd hcolumns hne⟩
  expansion_eq := (Expansion.noting_nil h).symm

theorem Describes.getD_eq (h : Describes bare done sofar) (path : String) :
    (sofar.1.nested.get? path).getD [] = columnsAt path done := by
  cases hget : sofar.1.nested.get? path with
  | some columns => exact ((h.nested_iff path columns).1 hget).2
  | none =>
    by_contra hne
    have hsome := (h.nested_iff path (columnsAt path done)).2 ⟨Ne.symm hne, rfl⟩
    cases hget.symm.trans hsome

/-- The branches at paths are as they were but for what is selected. -/
theorem Describes.branch? (h : Describes bare done sofar) (path : String) :
    sofar.2.branch? path = (bare.branch? path).map (Branch.mapLevel (Level.noting done)) := by
  rw [h.expansion_eq]
  exact Expansion.follow?_noting done _ bare

/-- A path and a column that a request may name there are what stands around the last slash. -/
theorem splitLast?_of_allowed (hs : s.Closed) {resource column : String} {target : Resource}
    (htarget : s.get? resource = some target) (hc : target.isAllowedColumn column = true)
    (path : String) : Text.splitLast? '/' (path ++ "/" ++ column) = some (path, column) :=
  Text.splitLast?_append ((hs.fits _ _ htarget).slash_notMem hc)

/-- **One more entry is added exactly when it may be selected**, whatever was selected before. -/
theorem Describes.exists_addEntry_iff (h : Describes bare done sofar) (hs : s.Closed) :
    (∃ next, addEntry s root sofar entry = .ok next) ↔ Selectable s root bare entry := by
  simp only [addEntry_eq_ok]
  constructor
  · rintro ⟨next, hadds⟩
    cases hadds with
    | root hplain hc => exact .inl ⟨Text.splitLast?_eq_none_iff.1 hplain, hc⟩
    | @nested path column b target hsplit hb htarget hc =>
      rw [h.branch?] at hb
      obtain ⟨b, hbare, rfl⟩ := Option.map_eq_some_iff.1 hb
      rw [Branch.resource, Branch.level_mapLevel] at htarget
      exact .inr ⟨path, b, target, column, (Text.splitLast?_eq_some_iff.1 hsplit).1, hbare,
        htarget, hc⟩
  · rintro (⟨hplain, hc⟩ | ⟨path, b, target, column, rfl, hbare, htarget, hc⟩)
    · exact ⟨_, .root (Text.splitLast?_eq_none_iff.2 hplain) hc⟩
    · have hb : sofar.2.branch? path = some (b.mapLevel (Level.noting done)) := by
        rw [h.branch?, hbare, Option.map_some]
      refine ⟨_, .nested (splitLast?_of_allowed hs htarget hc path) hb ?_ hc⟩
      rw [Branch.resource, Branch.level_mapLevel]
      exact htarget

/-- **One more entry is noted in both records**, if it is new. -/
theorem Describes.addEntry (h : Describes bare done sofar) (hbare : bare.Fresh)
    (hnew : entry ∉ done) (hadd : addEntry s root sofar entry = .ok next) :
    Describes bare (done ++ [entry]) next := by
  cases adds_of_addEntry hadd with
  | root hplain _ =>
    have hslash : '/' ∉ entry.toList := Text.splitLast?_eq_none_iff.1 hplain
    refine ⟨?_, fun path columns => ?_, ?_⟩
    · rw [List.filter_append, List.filter_singleton, h.topLevel_eq]
      simp [hslash]
    · rw [columnsAt_concat, columnAt?_of_plain hplain, Option.toList_none, List.append_nil]
      exact h.nested_iff path columns
    · rw [Expansion.noting_concat_plain hplain]
      exact h.expansion_eq
  | @nested path column b target hsplit _ _ _ =>
    have hslash : '/' ∈ entry.toList := by
      by_contra hplain
      cases (Text.splitLast?_of_notMem hplain).symm.trans hsplit
    refine ⟨?_, fun other columns => ?_, ?_⟩
    · change sofar.1.topLevel = _
      rw [List.filter_append, List.filter_singleton, h.topLevel_eq]
      simp [hslash]
    · rw [columnsAt_concat, columnAt?_of_split hsplit]
      change (sofar.1.nested.insert _ _).get? other = _ ↔ _
      by_cases he : other = path
      · have hsome : columnsAt path done ++ [column] ≠ [] := List.concat_ne_nil _ _
        rw [he, Dict.get?_insert_self, h.getD_eq, if_pos rfl, Option.toList_some, Option.some.injEq]
        exact ⟨fun hcolumns => ⟨hcolumns ▸ hsome, hcolumns.symm⟩, fun hcolumns => hcolumns.2.symm⟩
      · rw [Dict.get?_insert_of_ne _ he, if_neg he, Option.toList_none, List.append_nil]
        exact h.nested_iff other columns
    · change sofar.2.select path column = _
      rw [h.expansion_eq, Expansion.select_noting hbare hsplit hnew]

/-- A list of new entries is added exactly when each may be selected. -/
theorem Describes.exists_foldlM_iff (h : Describes bare done sofar) (hs : s.Closed)
    (hbare : bare.Fresh) {rest : List String} (hnodup : (done ++ rest).Nodup) :
    (∃ result, rest.foldlM (Selection.addEntry s root) sofar = .ok result) ↔
      ∀ entry ∈ rest, Selectable s root bare entry := by
  induction rest generalizing done sofar with
  | nil => exact ⟨fun _ => nofun, fun _ => ⟨sofar, rfl⟩⟩
  | cons entry rest ih =>
    have hnew : entry ∉ done := fun hmem =>
      (List.nodup_append.1 hnodup).2.2 entry hmem entry List.mem_cons_self rfl
    rw [List.append_cons] at hnodup
    rw [List.forall_mem_cons, ← h.exists_addEntry_iff hs, List.foldlM_cons]
    constructor
    · rintro ⟨result, hfold⟩
      obtain ⟨next, hadd, hfold⟩ := bind_eq_ok.1 hfold
      exact ⟨⟨next, hadd⟩, (ih (h.addEntry hbare hnew hadd) hnodup).1 ⟨result, hfold⟩⟩
    · rintro ⟨⟨next, hadd⟩, hrest⟩
      obtain ⟨result, hfold⟩ := (ih (h.addEntry hbare hnew hadd) hnodup).2 hrest
      exact ⟨result, bind_eq_ok.2 ⟨next, hadd, hfold⟩⟩

/-- And then each is noted. -/
theorem Describes.foldlM (h : Describes bare done sofar) (hbare : bare.Fresh) {rest : List String}
    (hnodup : (done ++ rest).Nodup) {result : Selection × Expansion}
    (hfold : rest.foldlM (Selection.addEntry s root) sofar = .ok result) :
    Describes bare (done ++ rest) result := by
  induction rest generalizing done sofar with
  | nil =>
    cases hfold
    rwa [List.append_nil]
  | cons entry rest ih =>
    have hnew : entry ∉ done := fun hmem =>
      (List.nodup_append.1 hnodup).2.2 entry hmem entry List.mem_cons_self rfl
    rw [List.append_cons] at hnodup ⊢
    rw [List.foldlM_cons] at hfold
    obtain ⟨next, hadd, hfold⟩ := bind_eq_ok.1 hfold
    exact ih (h.addEntry hbare hnew hadd) hnodup hfold

/-- At every level stands what the selection has at its path. -/
theorem Describes.selected_eq (h : Describes bare done sofar) (hbare : bare.Fresh) {path : String}
    {b : Branch} (hb : sofar.2.branch? path = some b) :
    b.level.selected = (sofar.1.nested.get? path).getD [] := by
  rw [h.branch?] at hb
  obtain ⟨b, hfollow, rfl⟩ := Option.map_eq_some_iff.1 hb
  have hpath : b.level.path = path := Text.split_inj.1 (hbare.split_path _ b hfollow)
  rw [Branch.level_mapLevel, h.getD_eq, ← hpath]
  rfl

/-- At every path of the selection stands a level. -/
theorem Describes.exists_branch? (h : Describes bare done sofar) (hs : s.Closed)
    (hdone : ∀ entry ∈ done, Selectable s root bare entry) {path : String} {columns : List String}
    (hget : sofar.1.nested.get? path = some columns) : ∃ b, sofar.2.branch? path = some b := by
  obtain ⟨hne, rfl⟩ := (h.nested_iff path columns).1 hget
  obtain ⟨column, hcolumn⟩ := List.exists_mem_of_ne_nil _ hne
  obtain ⟨entry, hentry, hcolumn⟩ := List.mem_filterMap.1 hcolumn
  have hsplit := columnAt?_eq_some_iff.1 hcolumn
  rcases hdone entry hentry with ⟨hplain, -⟩ | ⟨path', b, target, column', rfl, hb, htarget, hc⟩
  · cases (Text.splitLast?_of_notMem hplain).symm.trans hsplit
  · cases (splitLast?_of_allowed hs htarget hc path').symm.trans hsplit
    rw [h.branch?, hb]
    exact ⟨_, rfl⟩

theorem Describes.eq_mapLevels (h : Describes bare done sofar) : sofar.2 =
    bare.mapLevels fun l => { l with selected := (sofar.1.nested.get? l.path).getD [] } := by
  simp only [h.getD_eq]
  exact h.expansion_eq

section Build

variable {rootName : String} {paths : List String} {treeLimits limits : Limits}
  {entries : List String} {selection : Selection} {e e' : Expansion}

/-- **A selection is made exactly when there are not too many entries and each may be selected.** -/
theorem exists_build_iff (hs : s.Closed) (he : e.Fresh) :
    (∃ result, build s root entries e limits = .ok result) ↔
      (Columns.distinct (entries.map normalize)).length ≤ limits.maxColumns ∧
        ∀ entry ∈ Columns.distinct (entries.map normalize), Selectable s root e entry := by
  simp only [build_eq_ok, exists_and_left]
  exact and_congr_right fun _ =>
    (describes_empty he).exists_foldlM_iff hs he (Columns.nodup_distinct _)

/-- **What is made is described by the entries.** -/
theorem describes_build (he : e.Fresh)
    (h : build s root entries e limits = .ok (selection, e')) :
    Describes e (Columns.distinct (entries.map normalize)) (selection, e') :=
  (describes_empty he).foldlM he (Columns.nodup_distinct _) (build_eq_ok.1 h).2

/-- **Selecting is exact, and its two records agree.** For an expansion that was just built, a
selection is made exactly when no more entries than the limit remain once they are normalized and
repeats are dropped, and each of them may be selected. Then the selection has the entries without a
slash as columns of the root and the others as columns of their paths, in order; its paths are those
of branches, and each branch has selected what the selection has at its path; nothing else of the
expansion has changed. And entries that are normalized to the same ones are selected alike. -/
theorem build_exact {resources : List Resource} (hs : Schema.build resources = .ok s)
    (he : Expansion.build s rootName paths treeLimits = .ok e) (root : Resource)
    (entries : List String) (limits : Limits) :
    let wanted := (entries.map normalize).eraseDups
    ((∃ result, build s root entries e limits = .ok result) ↔
      wanted.length ≤ limits.maxColumns ∧ ∀ entry ∈ wanted, Selectable s root e entry) ∧
    (∀ selection e', build s root entries e limits = .ok (selection, e') →
      selection.topLevel = wanted.filter (fun entry => '/' ∉ entry.toList) ∧
      (∀ path columns, selection.nested.get? path = some columns ↔
        columns ≠ [] ∧ columns = columnsAt path wanted) ∧
      (∀ path columns, selection.nested.get? path = some columns →
        ∃ b, e'.branch? path = some b) ∧
      (∀ path b, e'.branch? path = some b →
        b.level.selected = (selection.nested.get? path).getD []) ∧
      e' = e.mapLevels fun l => { l with selected := (selection.nested.get? l.path).getD [] }) ∧
    ∀ entries', (entries'.map normalize).eraseDups = wanted →
      build s root entries' e limits = build s root entries e limits := by
  have hclosed : s.Closed := Schema.closed_of_build hs
  have hfresh : e.Fresh := Expansion.fresh_build he
  rw [← Columns.distinct_eq_eraseDups]
  intro wanted
  refine ⟨exists_build_iff hclosed hfresh, fun selection e' h => ?_, fun entries' hsame => ?_⟩
  · have hdescribes := describes_build hfresh h
    have hwanted := (exists_build_iff hclosed hfresh).1 ⟨_, h⟩
    exact ⟨hdescribes.topLevel_eq, hdescribes.nested_iff,
      fun path columns => hdescribes.exists_branch? hclosed hwanted.2,
      fun path b => hdescribes.selected_eq hfresh, hdescribes.eq_mapLevels⟩
  · rw [← Columns.distinct_eq_eraseDups] at hsame
    rw [build, build, hsame]

open Planner (staff staffSchema)

/-- Four entries ask for three columns, two of them with the names of their level in other
spellings. -/
theorem build_exact_staff : Schema.build [staff] = .ok staffSchema ∧ ∃ e,
    Expansion.build staffSchema "staff" ["boss/reports", "reports"] {} = .ok e ∧ ∃ selection e',
      build staffSchema staff [" name", "boss . reports / name", "boss/reports.name", "reports.id"]
        e {} = .ok (selection, e') ∧ selection.topLevel = ["name"] ∧
          selection.nested.get? "boss/reports" = some ["name"] ∧
            ∃ b, e'.branch? "boss/reports" = some b ∧ b.level.selected = ["name"] := by
  have hs : Schema.build [staff] = .ok staffSchema := by rfl
  obtain ⟨⟨selection, e'⟩, hall⟩ := exists_of_isOk (x := do
    let e ← Expansion.build staffSchema "staff" ["boss/reports", "reports"] {}
    build staffSchema staff [" name", "boss . reports / name", "boss/reports.name", "reports.id"]
      e {}) (by decide +kernel)
  obtain ⟨e, he, h⟩ := bind_eq_ok.1 hall
  obtain ⟨htop, hnested, hstands, hselected, -⟩ :=
    (build_exact hs he staff _ {}).2.1 selection e' h
  have hname : selection.nested.get? "boss/reports" = some ["name"] :=
    (hnested _ _).2 ⟨by decide, by decide +kernel⟩
  obtain ⟨b, hb⟩ := hstands _ _ hname
  refine ⟨hs, e, he, selection, e', h, htop.trans (by decide +kernel), hname, b, hb, ?_⟩
  rw [hselected _ _ hb, hname, Option.getD_some]

end Build

end Selection

end RequestQuery
