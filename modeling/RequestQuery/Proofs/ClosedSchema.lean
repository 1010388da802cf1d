import RequestQuery.Proofs.Fallible
import RequestQuery.Schema.Basic

/-!
# Closed schemas

What the checks of a schema leave to rely on. A resource fits among resources (`Resource.Fits`)
when its table and columns are identifiers, its restrictions name only what it declares, and each
relation joins a column of it to a column of a resource that is there. A schema is closed
(`Schema.Closed`) when each of its resources stands at its own name and fits among the others; every
schema that is built is closed (`Schema.closed_of_build`).

* `Resource.Fits.allowed_declared`, `Resource.Fits.declared_valid`: what a request may name is
  declared, and what is declared is an identifier.
* `Schema.build_eq_ok`: what the checks of a list of resources come to.
* `Schema.walk_cons`, `Schema.walk_append`, `Schema.resolve_eq_ok`: paths of relations.
-/

namespace RequestQuery

open Fallible

/-- A resource that fits among the given resources. -/
structure Resource.Fits (resources : Dict Resource) (r : Resource) : Prop where
  idColumns_ne_nil : r.idColumns ≠ []
  table_valid : Sql.Identifier.flaw? r.table = none
  column_valid : ∀ column ∈ r.columns, Sql.Identifier.flaw? column = none
  columnList_declared : ∀ names, r.columnList = some names →
    ∀ column ∈ names.toList, r.hasColumn column = true
  relationList_declared : ∀ names, r.relationList = some names →
    ∀ name ∈ names.toList, r.relations.contains name = true
  joined : ∀ name relation, r.relations.get? name = some relation →
    r.hasColumn relation.ownerColumn = true ∧ ∃ target,
      resources.get? relation.target = some target ∧
        target.hasColumn relation.relatedColumn = true

/-- Every resource of a schema stands at its name and fits among the others. -/
structure Schema.Closed (s : Schema) : Prop where
  name_eq : ∀ name r, s.get? name = some r → r.name = name
  fits : ∀ name r, s.get? name = some r → r.Fits s.resources

/-! ## The checks of a resource -/

namespace Resource

theorem checkName_eq_ok {r : Resource} {name : String} :
    r.checkName name = .ok () ↔ Sql.Identifier.flaw? name = none := by
  unfold checkName
  cases Sql.Identifier.flaw? name with
  | none => exact ⟨fun _ => rfl, fun _ => rfl⟩
  | some flaw => exact ⟨nofun, nofun⟩

theorem checkList_eq_ok {names : Option NameSet} {declared : String → Bool}
    {fault : String → SchemaFault} : checkList names declared fault = .ok () ↔
      ∀ set, names = some set → ∀ name ∈ set.toList, declared name = true := by
  unfold checkList
  cases names with
  | none => exact ⟨fun _ => nofun, fun _ => rfl⟩
  | some set =>
    cases hf : set.toList.find? (!declared ·) with
    | none =>
      simp only [Option.map_some, Option.getD_some, hf, Option.some.injEq, true_iff]
      rintro _ rfl name hname
      simpa using List.find?_eq_none.1 hf name hname
    | some name =>
      simp only [Option.map_some, Option.getD_some, hf, reduceCtorEq, false_iff]
      intro h
      have hd := h set rfl name (List.mem_of_find?_eq_some hf)
      have := List.find?_some hf
      simp [hd] at this

theorem checkRelation_eq_ok {r : Resource} {isResource : String → Bool} {name : String}
    {relation : Relation} : r.checkRelation isResource name relation = .ok () ↔
      isResource relation.target = true ∧ r.hasColumn relation.ownerColumn = true := by
  unfold checkRelation
  cases isResource relation.target <;> cases r.hasColumn relation.ownerColumn <;> simp

/-- A resource passes its own checks when its names are identifiers and it declares what it
names. -/
theorem check_eq_ok {r : Resource} {isResource : String → Bool} :
    r.check isResource = .ok () ↔
      r.idColumns ≠ [] ∧ Sql.Identifier.flaw? r.table = none ∧
        (∀ column ∈ r.columns, Sql.Identifier.flaw? column = none) ∧
        (∀ names, r.columnList = some names → ∀ column ∈ names.toList,
          r.hasColumn column = true) ∧
        (∀ names, r.relationList = some names → ∀ name ∈ names.toList,
          r.relations.contains name = true) ∧
        ∀ entry ∈ r.relations.entries,
          isResource entry.2.target = true ∧ r.hasColumn entry.2.ownerColumn = true := by
  have hcols : r.columns.forM r.checkName = .ok () ↔
      ∀ column ∈ r.columns, Sql.Identifier.flaw? column = none := by
    simp only [forM_eq_ok, checkName_eq_ok]
  unfold check
  cases hid : r.idColumns with
  | nil => exact ⟨nofun, fun h => absurd rfl h.1⟩
  | cons id ids =>
    simp only [List.isEmpty_cons, Bool.false_eq_true, if_false, check_bind_eq_ok]
    rw [checkName_eq_ok, hcols, checkList_eq_ok, checkList_eq_ok, forM_eq_ok]
    simp only [checkRelation_eq_ok, ne_eq, reduceCtorEq, not_false_eq_true, true_and]

/-! ## What a resource that fits declares -/

variable {resources : Dict Resource} {r : Resource}

theorem idColumn_declared {column : String} (h : column ∈ r.idColumns) :
    r.hasColumn column = true := by
  simp [hasColumn, h]

theorem foreignKey_declared {column : String} (h : column ∈ r.foreignKeys) :
    r.hasColumn column = true := by
  simp [hasColumn, h]

/-- A column that a request may name is declared. -/
theorem Fits.allowed_declared (h : r.Fits resources) {column : String}
    (hc : r.isAllowedColumn column = true) : r.hasColumn column = true := by
  unfold isAllowedColumn at hc
  cases hl : r.columnList with
  | none => rwa [hl] at hc
  | some names =>
    rw [hl] at hc
    exact h.columnList_declared names hl column ((NameSet.contains_iff_mem_toList ..).1 hc)

theorem Fits.declared_valid (h : r.Fits resources) {column : String}
    (hc : r.hasColumn column = true) : Sql.Identifier.flaw? column = none :=
  h.column_valid column (hasColumn_iff.1 hc)

/-- A relation that a request may expand is declared. -/
theorem get?_of_allowedRelation? {name : String} {relation : Relation}
    (h : r.allowedRelation? name = some relation) : r.relations.get? name = some relation := by
  unfold allowedRelation? at h
  split at h
  · split at h
    · exact h
    · cases h
  · exact h

end Resource

/-! ## Building -/

namespace Schema

theorem checkRelated_eq_ok {resources : Dict Resource} {r : Resource} {name : String}
    {relation : Relation} : checkRelated resources r name relation = .ok () ↔
      ∀ target, resources.get? relation.target = some target →
        target.hasColumn relation.relatedColumn = true := by
  unfold checkRelated
  cases resources.get? relation.target with
  | none => exact ⟨fun _ => nofun, fun _ => rfl⟩
  | some target => cases h : target.hasColumn relation.relatedColumn <;> simp [h]

/-- Collected resources stand at their names. -/
theorem name_eq_of_collect {rs : List Resource} {sofar resources : Dict Resource}
    (h : collect sofar rs = .ok resources)
    (hs : ∀ name r, sofar.get? name = some r → r.name = name) {name : String} {r : Resource}
    (hr : resources.get? name = some r) : r.name = name := by
  induction rs generalizing sofar with
  | nil =>
    cases h
    exact hs name r hr
  | cons first rest ih =>
    rw [collect] at h
    split at h
    · cases h
    · refine ih h fun name r hr => ?_
      by_cases hn : name = first.name
      · subst hn
        rw [Dict.get?_insert_self] at hr
        exact congrArg _ (Option.some.inj hr).symm
      · rw [Dict.get?_insert_of_ne _ hn] at hr
        exact hs name r hr

/-- A resource fits when it passes its own checks and its relations join on columns of their
targets. -/
theorem fits_iff_checks {resources : Dict Resource} {r : Resource} : r.Fits resources ↔
    r.check resources.contains = .ok () ∧
      ∀ entry ∈ r.relations.entries, checkRelated resources r entry.1 entry.2 = .ok () := by
  simp only [Resource.check_eq_ok, checkRelated_eq_ok]
  constructor
  · intro h
    have hjoined : ∀ entry ∈ r.relations.entries, r.hasColumn entry.2.ownerColumn = true ∧
        ∃ target, resources.get? entry.2.target = some target ∧
          target.hasColumn entry.2.relatedColumn = true :=
      fun entry he => h.joined _ _ ((r.relations.mem_entries_iff ..).1 he)
    refine ⟨⟨h.idColumns_ne_nil, h.table_valid, h.column_valid, h.columnList_declared,
      h.relationList_declared, fun entry he => ?_⟩, fun entry he target ht => ?_⟩
    · obtain ⟨howner, target, ht, -⟩ := hjoined entry he
      exact ⟨Option.isSome_iff_exists.2 ⟨target, ht⟩, howner⟩
    · obtain ⟨-, target', ht', hcolumn⟩ := hjoined entry he
      cases ht.symm.trans ht'
      exact hcolumn
  · rintro ⟨⟨hid, htable, hcolumns, hcolumnList, hrelationList, htarget⟩, hjoin⟩
    refine ⟨hid, htable, hcolumns, hcolumnList, hrelationList, fun name relation hrel => ?_⟩
    have hentry := (r.relations.mem_entries_iff name relation).2 hrel
    obtain ⟨hresource, howner⟩ := htarget _ hentry
    obtain ⟨target, ht⟩ := Option.isSome_iff_exists.1 hresource
    exact ⟨howner, target, ht, hjoin _ hentry target ht⟩

/-- A schema is built of resources that can be collected and fit among each other. -/
theorem build_eq_ok {rs : List Resource} {s : Schema} : build rs = .ok s ↔
    collect Dict.empty rs = .ok s.resources ∧ ∀ r ∈ s.resources.values, r.Fits s.resources := by
  unfold build
  rw [bind_eq_ok]
  simp only [check_bind_eq_ok, pure_eq_ok, forM_eq_ok, fits_iff_checks]
  constructor
  · rintro ⟨resources, hcollect, hcheck, hrelated, rfl⟩
    exact ⟨hcollect, fun r hr => ⟨hcheck r hr, hrelated r hr⟩⟩
  · intro ⟨hcollect, h⟩
    exact ⟨s.resources, hcollect, fun r hr => (h r hr).1, fun r hr => (h r hr).2, rfl⟩

/-- **A schema that is built is closed.** -/
theorem closed_of_build {rs : List Resource} {s : Schema} (h : build rs = .ok s) : s.Closed := by
  obtain ⟨hcollect, hfits⟩ := build_eq_ok.1 h
  refine ⟨fun name r hr => name_eq_of_collect hcollect (fun _ _ => nofun) hr, fun name r hr => ?_⟩
  exact hfits r ((s.resources.mem_values_iff r).2 ⟨name, hr⟩)

/-! ## Paths -/

theorem walk_cons {s : Schema} {r target : Resource} {relation : Relation} {segment : String}
    (hrelation : r.allowedRelation? segment = some relation)
    (htarget : s.get? relation.target = some target) (rest : List String) :
    s.walk r (segment :: rest) = s.walk target rest := by
  rw [walk, hrelation]
  simp [htarget]

theorem walk_append {s : Schema} {r middle : Resource} {path : List String}
    (h : s.walk r path = some middle) (rest : List String) :
    s.walk r (path ++ rest) = s.walk middle rest := by
  induction path generalizing r with
  | nil =>
    obtain rfl : r = middle := Option.some.inj h
    rfl
  | cons segment path ih =>
    rw [walk] at h
    split at h
    · cases h
    · next relation hr =>
      split at h
      · cases h
      · next target ht => rw [List.cons_append, walk_cons hr ht, ih h]

/-- A path of relations leads from one resource that fits to another one. -/
theorem Closed.fits_of_walk {s : Schema} (hs : s.Closed) {r target : Resource} {path : List String}
    (hr : r.Fits s.resources) (h : s.walk r path = some target) : target.Fits s.resources := by
  induction path generalizing r with
  | nil =>
    obtain rfl : r = target := Option.some.inj h
    exact hr
  | cons segment path ih =>
    rw [walk] at h
    split at h
    · cases h
    · split at h
      · cases h
      · next middle hmiddle => exact ih (hs.fits _ _ hmiddle) h

theorem resolve_eq_ok {s : Schema} {param root : String} {path : List String} {r : Resource} :
    s.resolve param root path = .ok r ↔
      ∃ top, s.get? root = some top ∧ s.walk top path = some r := by
  unfold resolve
  rw [← Option.bind_eq_some_iff]
  cases (s.get? root).bind fun r => s.walk r path with
  | none => exact ⟨nofun, nofun⟩
  | some found => simp

theorem resolve_eq_ok_iff_walk {s : Schema} {r target : Resource} {root param : String}
    (hr : s.get? root = some r) {names : List String} : s.resolve param root names = .ok target ↔
      s.walk r names = some target := by
  rw [resolve_eq_ok]
  refine ⟨?_, fun h => ⟨r, hr, h⟩⟩
  rintro ⟨top, htop, h⟩
  cases hr.symm.trans htop
  exact h

end Schema

end RequestQuery
