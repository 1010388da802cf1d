import RequestQuery.Proofs.SelectedColumns

/-!
# Declared and allowed columns

A resource answers questions about its columns in several ways: by a list of all of them, of the
allowed ones and of those that are always read, and by a test of a single name against each. A test
of an allowed name looks at the restriction alone, and the list of the allowed names looks at the
declarations besides, so the two agree only where a restriction names nothing else, which the checks
of a schema see to. What a request may name is therefore what is read where it selects nothing.

* `Resource.Declares`: what declares a column; `Resource.hasColumn_iff_declares`.
* `Resource.Fits.isAllowedColumn_iff`: what a request may name of a resource that fits is listed.
* `Selection.exists_place_eq_nil`, `Selection.Describes.exists_place_eq`: where columns are
  selected, an entry asks for them.
* `Planner.columnQueries_agree`: all of it.
-/

namespace RequestQuery

open Fallible

namespace Resource

/-- What declares a column of a resource. -/
inductive Declares (r : Resource) (column : String) : Prop where
  | property : column ∈ r.properties → Declares r column
  | id : column ∈ r.idColumns → Declares r column
  /-- A relation that belongs to another resource holds its key there. -/
  | key {name : String} {relation : Relation} : r.relations.get? name = some relation →
    relation.kind = .belongsTo → relation.ownerColumn = column → Declares r column

variable {r : Resource} {column : String}

theorem mem_foreignKeys : column ∈ r.foreignKeys ↔ ∃ name relation,
    r.relations.get? name = some relation ∧ relation.kind = .belongsTo ∧
      relation.ownerColumn = column := by
  simp only [foreignKeys, List.mem_map, List.mem_filter, decide_eq_true_iff, Dict.mem_values_iff]
  constructor
  · rintro ⟨relation, ⟨⟨name, hget⟩, hkind⟩, howner⟩
    exact ⟨name, relation, hget, hkind, howner⟩
  · rintro ⟨name, relation, hget, hkind, howner⟩
    exact ⟨relation, ⟨⟨name, hget⟩, hkind⟩, howner⟩

/-- The test of a column sees exactly what declares it. -/
theorem hasColumn_iff_declares : r.hasColumn column = true ↔ r.Declares column := by
  have hparts : r.hasColumn column = true ↔
      column ∈ r.properties ∨ column ∈ r.idColumns ∨ column ∈ r.foreignKeys := by
    simp only [hasColumn, Bool.or_eq_true, List.contains_iff_mem, or_assoc]
  rw [hparts, mem_foreignKeys]
  constructor
  · rintro (h | h | ⟨name, relation, hget, hkind, howner⟩)
    · exact .property h
    · exact .id h
    · exact .key hget hkind howner
  · intro h
    cases h with
    | property h => exact .inl h
    | id h => exact .inr (.inl h)
    | key hget hkind howner => exact .inr (.inr ⟨_, _, hget, hkind, howner⟩)

/-- What is always read is declared. -/
theorem defaultColumns_subset (r : Resource) : r.defaultColumns ⊆ r.columns := by
  intro column h
  rw [← hasColumn_iff]
  rcases mem_defaultColumns.1 h with h | h
  · exact idColumn_declared h
  · exact foreignKey_declared h

theorem allowedColumns_sublist (r : Resource) : r.allowedColumns.Sublist r.columns :=
  List.filter_sublist

/-- **A request may name exactly the listed columns** of a resource that fits. -/
theorem Fits.isAllowedColumn_iff {resources : Dict Resource} (h : r.Fits resources) :
    r.isAllowedColumn column = true ↔ column ∈ r.allowedColumns := by
  rw [mem_allowedColumns]
  exact ⟨fun hc => ⟨h.allowed_declared hc, hc⟩, And.right⟩

end Resource

/-! ## Where columns are selected -/

namespace Selection

variable {entries : List String} {bare : Expansion} {sofar : Selection × Expansion}

theorem place_of_notMem {entry : String} (h : '/' ∉ (normalize entry).toList) :
    place entry = ([], normalize entry) := by
  unfold place
  rw [Text.splitLast?_of_notMem h]

theorem place_of_columnAt? {entry path column : String}
    (h : columnAt? path (normalize entry) = some column) :
    place entry = (Text.split '/' path, column) := by
  unfold place
  rw [columnAt?_eq_some_iff.1 h]

/-- A column of the root is selected by an entry that asks for one. -/
theorem Describes.exists_place_eq_nil
    (h : Describes bare (Columns.distinct (entries.map normalize)) sofar)
    (hne : sofar.1.topLevel ≠ []) : ∃ entry ∈ entries, (place entry).1 = [] := by
  obtain ⟨column, hcolumn⟩ := List.exists_mem_of_ne_nil _ hne
  rw [h.topLevel_eq, List.mem_filter, Columns.mem_distinct, List.mem_map] at hcolumn
  obtain ⟨⟨entry, hentry, rfl⟩, hplain⟩ := hcolumn
  exact ⟨entry, hentry, by rw [place_of_notMem (of_decide_eq_true hplain)]⟩

/-- A column of a level is selected by an entry that asks for one there. -/
theorem Describes.exists_place_eq
    (h : Describes bare (Columns.distinct (entries.map normalize)) sofar) (hbare : bare.Fresh)
    {names : List String} {b : Branch} (hb : Branch.follow? names sofar.2.branches = some b)
    (hne : b.level.selected ≠ []) : ∃ entry ∈ entries, (place entry).1 = names := by
  rw [h.expansion_eq, Expansion.follow?_noting] at hb
  obtain ⟨b, hfollow, rfl⟩ := Option.map_eq_some_iff.1 hb
  rw [Branch.level_mapLevel] at hne
  obtain ⟨column, hcolumn⟩ := List.exists_mem_of_ne_nil _ hne
  obtain ⟨normalized, hnormalized, hcolumn⟩ := List.mem_filterMap.1 hcolumn
  rw [Columns.mem_distinct, List.mem_map] at hnormalized
  obtain ⟨entry, hentry, rfl⟩ := hnormalized
  refine ⟨entry, hentry, ?_⟩
  rw [place_of_columnAt? hcolumn]
  exact hbare.split_path names b hfollow

end Selection

/-! ## What is read where nothing is selected -/

namespace Planner

variable {p : Planner} {resource : String} {parameters : Parameters} {x : Results} {plan : Plan}
  {id : Option (List Value)}

/-- The entries of a request describe its selection. -/
theorem Passes.describes (h : p.Passes resource parameters x) : Selection.Describes x.bare
    (Columns.distinct ((Options.entries parameters .select).map Selection.normalize))
      (x.selection, x.expansion) :=
  (Options.validate_eq_ok.1 h.options).select ▸
    Selection.describes_build (Expansion.fresh_build h.expand) h.select

/-- **A level where nothing is selected reads every column that a request may name there.** -/
theorem allowed_of_reads (hs : p.schema.Closed) (h : p.compile resource parameters id = .ok plan)
    {path columns : List String} {below : List Branch} (hreads : plan.Reads path columns below)
    (hnone : ∀ entry ∈ Options.entries parameters .select, (Selection.place entry).1 ≠ path) :
    ∃ root r, p.schema.get? resource = some root ∧ p.schema.walk root path = some r ∧
      ∀ column, r.isAllowedColumn column = true → column ∈ columns := by
  obtain ⟨x, hx, hbranches, hroot⟩ := rootColumns_of_compile h
  rw [branches_plan] at hbranches
  cases hreads with
  | root =>
    have htop : x.selection.topLevel = [] := by
      by_contra hne
      obtain ⟨entry, hentry, hplace⟩ := hx.describes.exists_place_eq_nil hne
      exact hnone entry hentry hplace
    refine ⟨x.root, x.root, hx.root, rfl, fun column hc => ?_⟩
    rw [hroot, mem_rootColumns_plan, htop]
    exact .inr ((hs.fits _ _ hx.root).isAllowedColumn_iff.1 hc)
  | @branch above b hat =>
    have hfollow := Branch.follow?_of_at (ordered_of_compile h) hat
    rw [hbranches] at hfollow hat
    have hselected : b.level.selected = [] := by
      by_contra hne
      obtain ⟨entry, hentry, hplace⟩ :=
        hx.describes.exists_place_eq (Expansion.fresh_build hx.expand) hfollow hne
      exact hnone entry hentry hplace
    obtain ⟨owner, target, howner, hl, -⟩ := Branch.permitted_at hx.permitted hat
    have hexpands : owner.allowedRelation? b.name = some b.level.relation := hl.expands
    refine ⟨x.root, target, hx.root, ?_, fun column hc => ?_⟩
    · rw [Schema.walk_append howner, Schema.walk_cons hexpands hl.reads, Schema.walk]
    · rw [Branch.mem_columns, hselected, hl.allowedColumns_eq]
      exact .inr (.inr ((hs.fits _ _ hl.reads).isAllowedColumn_iff.1 hc))

/-- **The queries about columns agree.** For every resource the list of all columns has no repeats
and holds the ones that the test of a column finds, which are those that something declares; the
columns that are always read are among them, and the allowed ones are those of the list, in its
order, that pass the test of a name in a request. In a schema that is built this test alone decides:
what a request may name is listed as allowed, and it is read at every level of a compiled plan for
which the request selects nothing. -/
theorem columnQueries_agree :
    (∀ r : Resource, r.columns.Nodup ∧
      (∀ column, column ∈ r.columns ↔ r.hasColumn column = true) ∧
      (∀ column, r.hasColumn column = true ↔ r.Declares column) ∧
      r.defaultColumns ⊆ r.columns ∧ r.allowedColumns.Sublist r.columns ∧
      ∀ column, column ∈ r.allowedColumns ↔
        column ∈ r.columns ∧ r.isAllowedColumn column = true) ∧
    ∀ (resources : List Resource) (p : Planner), Schema.build resources = .ok p.schema →
      (∀ name r, p.schema.get? name = some r → ∀ column,
        r.isAllowedColumn column = true ↔ column ∈ r.allowedColumns) ∧
      ∀ resource parameters id plan, p.compile resource parameters id = .ok plan →
        ∀ path columns below, plan.Reads path columns below →
          (∀ entry ∈ Options.entries parameters .select, (Selection.place entry).1 ≠ path) →
            ∃ root r, p.schema.get? resource = some root ∧ p.schema.walk root path = some r ∧
              ∀ column, r.isAllowedColumn column = true → column ∈ columns := by
  refine ⟨fun r => ⟨r.nodup_columns, fun column => Resource.hasColumn_iff.symm,
    fun column => Resource.hasColumn_iff_declares, r.defaultColumns_subset,
    r.allowedColumns_sublist, fun column => ?_⟩, fun resources p hs => ?_⟩
  · rw [Resource.mem_allowedColumns, Resource.hasColumn_iff]
  · have hclosed : p.schema.Closed := Schema.closed_of_build hs
    exact ⟨fun name r hr column => (hclosed.fits name r hr).isAllowedColumn_iff,
      fun resource parameters id plan h path columns below => allowed_of_reads hclosed h⟩

/-- A request that selects the name of the boss only, so that all allowed columns of the root and of
the reports are read. -/
def bossRequest : Parameters :=
  .ofPairs [("$expand", "boss,reports"), ("$select", "boss . name")]

theorem columnQueries_agree_staff : Schema.build [staff] = .ok staffSchema ∧
    staffSchema.get? "staff" = some staff ∧
    (∀ column, staff.isAllowedColumn column = true ↔ column ∈ staff.allowedColumns) ∧ ∃ plan,
      compile ⟨staffSchema, {}⟩ "staff" bossRequest none = .ok plan ∧
        plan.Reads [] plan.rootColumns plan.branches ∧
        (∀ entry ∈ Options.entries bossRequest .select, (Selection.place entry).1 ≠ []) ∧
          ∀ column, staff.isAllowedColumn column = true → column ∈ plan.rootColumns := by
  have hs : Schema.build [staff] = .ok staffSchema := by rfl
  have hstaff : staffSchema.get? "staff" = some staff := by rfl
  have hnone : ∀ entry ∈ Options.entries bossRequest .select, (Selection.place entry).1 ≠ [] := by
    decide +kernel
  obtain ⟨plan, h⟩ := exists_of_isOk (x := compile ⟨staffSchema, {}⟩ "staff" bossRequest none)
    (by decide +kernel)
  obtain ⟨hallowed, hread⟩ := columnQueries_agree.2 [staff] ⟨staffSchema, {}⟩ hs
  obtain ⟨root, r, hroot, hwalk, hcolumns⟩ := hread _ _ _ plan h [] _ _ .root hnone
  obtain rfl : staff = root := Option.some.inj (hstaff.symm.trans hroot)
  obtain rfl : staff = r := Option.some.inj hwalk
  exact ⟨hs, hstaff, hallowed _ _ hstaff, plan, h, .root, hnone, hcolumns⟩

end Planner

end RequestQuery
