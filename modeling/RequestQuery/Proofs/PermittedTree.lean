import RequestQuery.Expansion
import RequestQuery.Proofs.ClosedSchema

/-!
# Trees of permitted relations

The invariant of an expansion while it is built and while columns are selected in it. A level is
permitted below a resource (`Level.Permitted`) when its relation is one that a request may expand
there, what it reads is what the relation and its target say, and its selected columns may be named
on the target. A branch is permitted (`Branch.Permitted`) when its level is and the branches below
it are permitted below the target.

* `Branch.addPath_cons_eq_ok`: how a path is added; `Expansion.WellFormed`, `Expansion.build_eq_ok`:
  the paths that are within the limits, and how an expansion is built from them.
* `Branch.permitted_addPath`, `Branch.permitted_select`: what one path adds and one column changes
  is permitted; `Expansion.permitted_build`: so is every expansion that is built.
* `Branch.At`: a branch stands in a tree, at any depth; `Branch.permitted_at`: it reads the target
  of a relation that a request may expand on the resource that the names above it lead to.
* `Branch.mayRead_of_permitted`: the columns that a level reads.
-/

namespace RequestQuery

open Fallible

/-- A level that a request may read below the resource `parent`, from the resource `target`. -/
structure Level.Permitted (s : Schema) (parent target : Resource) (l : Level) : Prop where
  expands : parent.allowedRelation? l.name = some l.relation
  reads : s.get? l.relation.target = some target
  table_eq : l.table = target.table
  primaryKey_eq : l.primaryKey = target.idColumns
  defaultColumns_eq :
    l.defaultColumns = Columns.add target.defaultColumns l.relation.relatedColumn
  allowedColumns_eq : l.allowedColumns = target.allowedColumns
  selected_allowed : ∀ column ∈ l.selected, target.isAllowedColumn column = true

/-- A column that may be read from a resource: a request may name it, it identifies the row or holds
the key of another one, or it is one of the given columns that join the row to others. -/
def Resource.MayRead (r : Resource) (joins : List String) (column : String) : Prop :=
  r.isAllowedColumn column = true ∨ column ∈ r.idColumns ∨ column ∈ r.foreignKeys ∨ column ∈ joins

/-- A resource that fits declares what may be read from it, if it declares the joins. -/
theorem Resource.Fits.declared_of_mayRead {resources : Dict Resource} {r : Resource}
    (h : r.Fits resources) {joins : List String}
    (hj : ∀ column ∈ joins, r.hasColumn column = true) {column : String}
    (hc : r.MayRead joins column) : r.hasColumn column = true := by
  rcases hc with hc | hc | hc | hc
  · exact h.allowed_declared hc
  · exact idColumn_declared hc
  · exact foreignKey_declared hc
  · exact hj column hc

/-- The columns that join the resource above to the given branches. -/
def Branch.ownerColumns (branches : List Branch) : List String :=
  branches.map (·.level.relation.ownerColumn)

/-- A branch all of whose levels a request may read below the resource above it. -/
inductive Branch.Permitted (s : Schema) : Resource → Branch → Prop where
  | mk {parent target : Resource} {level : Level} {branches : List Branch} :
    level.Permitted s parent target → (∀ b ∈ branches, Permitted s target b) →
      Permitted s parent (.mk level branches)

/-- `At branches above b`: the branch `b` stands in `branches`, and `above` are the names on the
way down to it. -/
inductive Branch.At : List Branch → List String → Branch → Prop where
  | here {branches : List Branch} {b : Branch} : b ∈ branches → At branches [] b
  | inside {branches : List Branch} {b c : Branch} {above : List String} : b ∈ branches →
    At b.branches above c → At branches (b.name :: above) c

namespace Level

/-- The level of a relation to its target, before any column is selected. -/
theorem permitted_ofRelation {s : Schema} {parent target : Resource} {name : String}
    {relation : Relation} (hr : parent.allowedRelation? name = some relation)
    (ht : s.get? relation.target = some target) (path : String) :
    (ofRelation name path relation target).Permitted s parent target where
  expands := hr
  reads := ht
  table_eq := rfl
  primaryKey_eq := rfl
  defaultColumns_eq := rfl
  allowedColumns_eq := rfl
  selected_allowed := nofun

/-- A level reads from the target of its relation. -/
theorem Permitted.target_eq {s : Schema} {parent target target' : Resource} {l : Level}
    {relation : Relation} (h : l.Permitted s parent target)
    (hr : parent.allowedRelation? l.name = some relation)
    (ht : s.get? relation.target = some target') : target = target' := by
  have e : l.relation = relation := Option.some.inj (h.expands.symm.trans hr)
  exact Option.some.inj (h.reads.symm.trans (e ▸ ht))

/-- One more column of the target may be selected if a request may name it. -/
theorem Permitted.select {s : Schema} {parent target : Resource} {l : Level}
    (h : l.Permitted s parent target) {column : String}
    (hc : target.isAllowedColumn column = true) :
    Permitted s parent target { l with selected := Columns.add l.selected column } :=
  { h with
    selected_allowed := fun c hmem => by
      rcases Columns.mem_add.1 hmem with hmem | rfl
      · exact h.selected_allowed c hmem
      · exact hc }

end Level

namespace Branch

variable {s : Schema} {parent target : Resource} {branches : List Branch}

theorem mem_put {b c : Branch} (h : c ∈ put b branches) : c = b ∨ c ∈ branches := by
  induction branches with
  | nil => exact .inl (List.mem_singleton.1 h)
  | cons other rest ih =>
    rw [put] at h
    split at h
    · exact List.mem_cons.1 h
    · split at h
      · exact (List.mem_cons.1 h).imp_right (List.mem_cons_of_mem _)
      · rcases List.mem_cons.1 h with rfl | h
        · exact .inr List.mem_cons_self
        · exact (ih h).imp_right (List.mem_cons_of_mem _)

theorem mem_of_find? {name : String} {b : Branch} (h : find? name branches = some b) :
    b ∈ branches :=
  List.mem_of_find?_eq_some h

theorem name_of_find? {name : String} {b : Branch} (h : find? name branches = some b) :
    b.name = name := by
  simpa using List.find?_some h

/-! ## The tree as it is built -/

/-- A permitted branch read from its top. -/
theorem Permitted.top {b : Branch} (h : b.Permitted s parent) :
    ∃ target, b.level.Permitted s parent target ∧ ∀ c ∈ b.branches, c.Permitted s target := by
  cases h with
  | mk hl hb => exact ⟨_, hl, hb⟩

theorem permitted_put {b : Branch} (hb : b.Permitted s parent)
    (h : ∀ c ∈ branches, c.Permitted s parent) : ∀ c ∈ put b branches, c.Permitted s parent := by
  intro c hc
  rcases mem_put hc with rfl | hc
  · exact hb
  · exact h c hc

/-- A branch that is found by its name, or else a new one, is permitted and reads the target of
the relation with that name. -/
theorem top_of_find?_getD {segment path : String} {relation : Relation}
    (h : ∀ b ∈ branches, b.Permitted s parent)
    (hr : parent.allowedRelation? segment = some relation)
    (ht : s.get? relation.target = some target) {b : Branch}
    (hb : b = (find? segment branches).getD (.mk (.ofRelation segment path relation target) [])) :
    b.level.Permitted s parent target ∧ ∀ c ∈ b.branches, c.Permitted s target := by
  cases hf : find? segment branches with
  | none =>
    rw [hf] at hb
    subst hb
    exact ⟨Level.permitted_ofRelation hr ht path, nofun⟩
  | some found =>
    rw [hf] at hb
    subst hb
    obtain ⟨target', hl, hbelow⟩ := (h _ (mem_of_find? hf)).top
    rw [← name_of_find? hf] at hr
    obtain rfl := hl.target_eq hr ht
    exact ⟨hl, hbelow⟩

/-- What a segment of a path does: it names a relation that a request may expand, and the rest of
the path is added below the branch with its name, or below a new one. -/
theorem addPath_cons_eq_ok {limits : Limits} {path segment : String} {above rest : List String}
    {branches' : List Branch}
    (h : addPath s limits path parent above (segment :: rest) branches = .ok branches') :
    ∃ relation target b below, parent.allowedRelation? segment = some relation ∧
      s.get? relation.target = some target ∧
        b = (find? segment branches).getD
          (.mk (.ofRelation segment (Text.join "/" (above ++ [segment])) relation target) []) ∧
          addPath s limits path target (above ++ [segment]) rest b.branches = .ok below ∧
            branches' = put (.mk b.level below) branches := by
  rw [addPath] at h
  split at h
  · cases h
  cases hr : parent.allowedRelation? segment with
  | none =>
    rw [hr] at h
    cases h
  | some relation =>
    cases ht : s.get? relation.target with
    | none =>
      simp only [hr, ht] at h
      cases h
    | some target =>
      simp only [hr, ht] at h
      obtain ⟨below, hbelow, h⟩ := bind_eq_ok.1 h
      exact ⟨relation, target, _, below, rfl, ht, rfl, hbelow, (pure_eq_ok.1 h).symm⟩

/-- **What a path adds is permitted.** -/
theorem permitted_addPath {limits : Limits} {path : String} {above segments : List String}
    {branches' : List Branch} (h : ∀ b ∈ branches, b.Permitted s parent)
    (hadd : addPath s limits path parent above segments branches = .ok branches') :
    ∀ b ∈ branches', b.Permitted s parent := by
  induction segments generalizing parent above branches branches' with
  | nil =>
    cases hadd
    exact h
  | cons segment rest ih =>
    obtain ⟨relation, target, b, below, hr, ht, hb, hbelow, rfl⟩ := addPath_cons_eq_ok hadd
    -- The branch that is there and a new one both read the target from which the rest starts.
    obtain ⟨hl, hbranches⟩ := top_of_find?_getD h hr ht hb
    exact permitted_put (.mk hl (ih hbranches hbelow)) h

/-- **A column that a request may name on the resource at the end of a path may be selected
there.** -/
theorem permitted_select {segments : List String} {column : String}
    (h : ∀ b ∈ branches, b.Permitted s parent) (hw : s.walk parent segments = some target)
    (hc : target.isAllowedColumn column = true) :
    ∀ b ∈ select column segments branches, b.Permitted s parent := by
  induction segments generalizing parent branches with
  | nil => exact h
  | cons segment rest ih =>
    rw [select]
    cases hf : find? segment branches with
    | none => exact h
    | some b =>
      obtain ⟨target', hl, hb⟩ := (h b (mem_of_find? hf)).top
      have hr : parent.allowedRelation? segment = some b.level.relation :=
        name_of_find? hf ▸ hl.expands
      rw [Schema.walk_cons hr hl.reads] at hw
      cases rest with
      | nil =>
        obtain rfl : target' = target := Option.some.inj hw
        exact permitted_put (.mk (hl.select hc) hb) h
      | cons next rest => exact permitted_put (.mk hl (ih hb hw)) h

/-! ## Branches by their paths -/

/-- A branch that is found by its path reads the resource that the path leads to. -/
theorem walk_of_follow? {segments : List String} {b : Branch}
    (h : ∀ b ∈ branches, b.Permitted s parent) (hf : follow? segments branches = some b) :
    ∃ target, s.walk parent segments = some target ∧ s.get? b.resource = some target := by
  induction segments generalizing parent branches with
  | nil => cases hf
  | cons segment rest ih =>
    cases hfind : find? segment branches with
    | none =>
      cases rest <;> simp [follow?, hfind] at hf
    | some top =>
      obtain ⟨target, hl, hb⟩ := (h top (mem_of_find? hfind)).top
      have hr : parent.allowedRelation? segment = some top.level.relation :=
        name_of_find? hfind ▸ hl.expands
      rw [Schema.walk_cons hr hl.reads]
      cases rest with
      | nil =>
        obtain rfl : top = b := by simpa [follow?, hfind] using hf
        exact ⟨target, rfl, hl.reads⟩
      | cons next rest =>
        simp only [follow?, hfind] at hf
        exact ih hb hf

/-- **A branch reads the target of a relation that a request may expand** on the resource that the
names above it lead to. -/
theorem permitted_at {above : List String} {b : Branch}
    (h : ∀ b ∈ branches, b.Permitted s parent) (hat : At branches above b) :
    ∃ owner target, s.walk parent above = some owner ∧ b.level.Permitted s owner target ∧
      ∀ c ∈ b.branches, c.Permitted s target := by
  induction hat generalizing parent with
  | here hb =>
    obtain ⟨target, hl, hbelow⟩ := (h _ hb).top
    exact ⟨parent, target, rfl, hl, hbelow⟩
  | inside hb hat ih =>
    obtain ⟨middle, hl, hbelow⟩ := (h _ hb).top
    obtain ⟨owner, target, howner, hc⟩ := ih hbelow
    exact ⟨owner, target, (Schema.walk_cons hl.expands hl.reads _).trans howner, hc⟩

theorem mem_joinColumns {column : String} :
    column ∈ joinColumns branches ↔ column ∈ ownerColumns branches :=
  Columns.mem_distinct

theorem mem_columns {b : Branch} {column : String} :
    column ∈ b.columns ↔ column ∈ b.level.defaultColumns ∨ column ∈ ownerColumns b.branches ∨
      column ∈ if b.level.selected.isEmpty then b.level.allowedColumns else b.level.selected := by
  simp only [columns, Columns.mem_addAll, mem_joinColumns, or_assoc]

/-- **A permitted level reads no more than its target lets it read.** -/
theorem mayRead_of_permitted {owner : Resource} {b : Branch}
    (h : b.level.Permitted s owner target) {column : String} (hc : column ∈ b.columns) :
    target.MayRead (b.level.relation.relatedColumn :: ownerColumns b.branches) column := by
  rcases mem_columns.1 hc with hc | hc | hc
  · rw [h.defaultColumns_eq, Columns.mem_add, Resource.mem_defaultColumns] at hc
    rcases hc with (hc | hc) | rfl
    · exact .inr (.inl hc)
    · exact .inr (.inr (.inl hc))
    · exact .inr (.inr (.inr List.mem_cons_self))
  · exact .inr (.inr (.inr (List.mem_cons_of_mem _ hc)))
  · left
    split at hc
    · rw [h.allowedColumns_eq] at hc
      exact (Resource.mem_allowedColumns.1 hc).2
    · exact h.selected_allowed column hc

/-! ## Declared columns -/

/-- The columns that join a permitted branch to the resource above it are declared on both sides. -/
theorem Permitted.joined {b : Branch} (hb : b.Permitted s parent)
    (hp : parent.Fits s.resources) : parent.hasColumn b.level.relation.ownerColumn = true ∧
      ∃ target, b.level.Permitted s parent target ∧ (∀ c ∈ b.branches, c.Permitted s target) ∧
        target.hasColumn b.level.relation.relatedColumn = true := by
  obtain ⟨target, hl, hbelow⟩ := hb.top
  obtain ⟨howner, target', ht, hrelated⟩ :=
    hp.joined _ _ (Resource.get?_of_allowedRelation? hl.expands)
  obtain rfl : target = target' := Option.some.inj (hl.reads.symm.trans ht)
  exact ⟨howner, target, hl, hbelow, hrelated⟩

theorem ownerColumn_declared (hp : parent.Fits s.resources)
    (h : ∀ b ∈ branches, b.Permitted s parent) :
    ∀ column ∈ ownerColumns branches, parent.hasColumn column = true := by
  intro column hc
  obtain ⟨b, hb, rfl⟩ := List.mem_map.1 hc
  exact ((h b hb).joined hp).1

/-- **Every column that a permitted branch reads is declared** on the resource that it reads, if the
schema is closed. -/
theorem Permitted.declared (hs : s.Closed) (hp : parent.Fits s.resources) {b : Branch}
    (hb : b.Permitted s parent) : ∃ target, b.level.Permitted s parent target ∧
      target.Fits s.resources ∧ (∀ c ∈ b.branches, c.Permitted s target) ∧
        target.hasColumn b.level.relation.relatedColumn = true ∧
          ∀ column ∈ b.columns, target.hasColumn column = true := by
  obtain ⟨-, target, hl, hbelow, hrelated⟩ := hb.joined hp
  have hfits : target.Fits s.resources := hs.fits _ _ hl.reads
  refine ⟨target, hl, hfits, hbelow, hrelated, fun column hc => ?_⟩
  refine hfits.declared_of_mayRead (fun c hj => ?_) (mayRead_of_permitted hl hc)
  rcases List.mem_cons.1 hj with rfl | hj
  · exact hrelated
  · exact ownerColumn_declared hfits hbelow c hj

end Branch

/-! ## Expansions -/

namespace Expansion

/-- The names of a path, trimmed. -/
def names (path : String) : List String := (Text.split '/' path).map Text.trim

/-- The paths are few enough, and each of them has names all along and is short enough. -/
structure WellFormed (limits : Limits) (paths : List String) : Prop where
  few : paths.length ≤ limits.maxRelations
  named : ∀ path ∈ paths, "" ∉ names path
  short : ∀ path ∈ paths, (names path).length ≤ limits.maxRecursionDepth

variable {s : Schema} {root : String} {paths : List String} {limits : Limits} {e : Expansion}
  {r : Resource}

theorem segments_eq_ok {path : String} {ns : List String} : segments limits path = .ok ns ↔
    ns = names path ∧ "" ∉ names path ∧ (names path).length ≤ limits.maxRecursionDepth := by
  have hdef : segments limits path = if (names path).contains "" then
      .error (.invalid QueryOption.expand.key path .emptySegment)
    else if limits.maxRecursionDepth < (names path).length then
      .error (.limitExceeded .recursionDepth limits.maxRecursionDepth (names path).length)
    else .ok (names path) := rfl
  rw [hdef]
  by_cases hempty : "" ∈ names path
  · rw [if_pos (List.contains_iff_mem.2 hempty)]
    exact ⟨nofun, fun h => absurd hempty h.2.1⟩
  · rw [if_neg (mt List.contains_iff_mem.1 hempty)]
    by_cases hlong : limits.maxRecursionDepth < (names path).length
    · rw [if_pos hlong]
      exact ⟨nofun, fun h => absurd hlong (Nat.not_lt.2 h.2.2)⟩
    · rw [if_neg hlong, Except.ok.injEq]
      exact ⟨fun h => ⟨h.symm, hempty, Nat.not_lt.1 hlong⟩, fun h => h.1.symm⟩

/-- The names of all paths. -/
theorem mapM_segments_eq_ok {split : List (String × List String)} :
    (paths.mapM fun path => do return (path, ← segments limits path)) = .ok split ↔
      split = paths.map (fun path => (path, names path)) ∧ ∀ path ∈ paths,
        "" ∉ names path ∧ (names path).length ≤ limits.maxRecursionDepth := by
  have hown (path : String) (x : String × List String) :
      (do return (path, ← segments limits path) : Except Rejection _) = .ok x ↔
        x = (path, names path) ∧ "" ∉ names path ∧
          (names path).length ≤ limits.maxRecursionDepth := by
    rw [bind_eq_ok]
    simp only [segments_eq_ok, pure_eq_ok]
    constructor
    · rintro ⟨_, ⟨rfl, hform⟩, rfl⟩
      exact ⟨rfl, hform⟩
    · rintro ⟨rfl, hform⟩
      exact ⟨_, ⟨rfl, hform⟩, rfl⟩
  rw [mapM_eq_ok_iff fun path x h => ((hown path x).1 h).1]
  refine and_congr_right' (forall₂_congr fun path _ => ?_)
  rw [hown]
  exact and_iff_right rfl

/-- Paths that are within the limits are added one by one. -/
theorem build_eq (h : WellFormed limits paths) (hr : s.get? root = some r) :
    build s root paths limits = Expansion.mk <$> paths.foldlM (fun branches path =>
      Branch.addPath s limits path r [] (names path) branches) [] := by
  have hsplit := mapM_segments_eq_ok.2
    ⟨rfl, fun path hpath => ⟨h.named path hpath, h.short path hpath⟩⟩
  have hroot : s.resolve QueryOption.expand.key root [] = .ok r :=
    (Schema.resolve_eq_ok_iff_walk hr).2 rfl
  rw [build, if_neg (Nat.not_lt.2 h.few)]
  simp only [hsplit, hroot]
  change ((paths.map fun path => (path, names path)).foldlM (fun branches x =>
    Branch.addPath s limits x.1 r [] x.2 branches) [] >>=
      fun branches => pure (Expansion.mk branches)) = _
  rw [List.foldlM_map, map_eq_pure_bind]

/-- **An expansion is built from paths that are within the limits**, one after the other. -/
theorem build_eq_ok : build s root paths limits = .ok e ↔
    WellFormed limits paths ∧ ∃ r, s.get? root = some r ∧
      paths.foldlM (fun branches path => Branch.addPath s limits path r [] (names path) branches)
        [] = .ok e.branches := by
  constructor
  · intro h
    have hrest := h
    unfold build at hrest
    obtain ⟨hfew, hrest⟩ := guard_bind_eq_ok.1 hrest
    obtain ⟨split, hsplit, hrest⟩ := bind_eq_ok.1 hrest
    obtain ⟨resource, hresource, -⟩ := bind_eq_ok.1 hrest
    obtain ⟨r, hr, -⟩ := Schema.resolve_eq_ok.1 hresource
    obtain ⟨-, hform⟩ := mapM_segments_eq_ok.1 hsplit
    have hwell : WellFormed limits paths := ⟨Nat.not_lt.1 hfew,
      fun path hpath => (hform path hpath).1, fun path hpath => (hform path hpath).2⟩
    rw [build_eq hwell hr] at h
    obtain ⟨branches, hfold, rfl⟩ := map_eq_ok.1 h
    exact ⟨hwell, r, hr, hfold⟩
  · rintro ⟨hwell, r, hr, hfold⟩
    rw [build_eq hwell hr, hfold]
    rfl

/-- **Every expansion that is built is permitted.** -/
theorem permitted_build (hr : s.get? root = some r)
    (h : build s root paths limits = .ok e) : ∀ b ∈ e.branches, b.Permitted s r := by
  obtain ⟨-, resource, hresource, hfold⟩ := build_eq_ok.1 h
  obtain rfl : r = resource := Option.some.inj (hr.symm.trans hresource)
  exact foldlM_induct (fun branches => ∀ b ∈ branches, b.Permitted s r)
    (fun _ _ _ _ hb hadd => Branch.permitted_addPath hb hadd) nofun hfold

end Expansion

end RequestQuery
