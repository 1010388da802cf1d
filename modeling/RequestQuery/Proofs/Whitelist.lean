import RequestQuery.Proofs.CheckedFilter
import RequestQuery.Proofs.PermittedTree
import RequestQuery.Proofs.Stages

/-!
# What a plan may name

A request reaches a plan only through the white list of a schema: every column that a plan tests,
sorts by or selects is one that a request may name on the resource of its level, every relation that
it expands is one that a request may expand there, and what is read besides is what identifies and
joins rows. `Plan.Whitelisted` says so of a plan, and the main statement is that every compiled plan
has the property. It is put together from the stages:

* `Planner.tested_of_filterPredicate`, `Planner.tested_idPredicate`: the columns of the predicate.
* `Planner.checkSort_eq_ok`, `Options.Reads.sortable`: the sort keys.
* `Selection.adds_of_addEntry`: what one entry of a selection adds; `Selection.allowed_build`: the
  selection, and the expansion with its selected columns.
* `Selection.mayRead_of_mem_rootColumns`: the columns of the root.
-/

namespace RequestQuery

open Fallible

/-! ## Predicates -/

namespace Planner

theorem tested_of_filterPredicate {root : Resource} {limits : Limits} {source : Option String}
    {predicate : Option Predicate} (h : filterPredicate root limits source = .ok predicate) :
    ∀ p ∈ predicate, ∀ column ∈ p.tested, root.isAllowedColumn column = true := by
  cases source with
  | none =>
    cases h
    exact nofun
  | some source =>
    obtain ⟨p, hp, rfl⟩ := map_eq_ok.1 h
    obtain ⟨f, -, hf⟩ := Filter.exists_check_of_compile hp
    rintro _ ⟨⟩
    exact Filter.tested_of_check hf

theorem tested_equals (column : String) (value : Value) :
    (Predicate.equals column value).tested = [column] := by
  unfold Predicate.equals
  split <;> rfl

theorem tested_foldl_and (first : Predicate) (rest : List Predicate) :
    (rest.foldl .and first).tested = first.tested ++ rest.flatMap Predicate.tested := by
  induction rest generalizing first with
  | nil => simp
  | cons p rest ih =>
    rw [List.foldl_cons, ih, Predicate.tested, List.flatMap_cons, List.append_assoc]

theorem tested_conjunction? {predicates : List Predicate} {p : Predicate}
    (h : conjunction? predicates = some p) : p.tested = predicates.flatMap Predicate.tested := by
  cases predicates with
  | nil => cases h
  | cons first rest =>
    cases h
    exact tested_foldl_and first rest

theorem tested_zipWith_equals {columns : List String} {id : List Value}
    (h : id.length = columns.length) :
    (List.zipWith Predicate.equals columns id).flatMap Predicate.tested = columns := by
  induction columns generalizing id with
  | nil => rfl
  | cons column columns ih =>
    cases id with
    | nil => cases h
    | cons value id =>
      rw [List.zipWith_cons_cons, List.flatMap_cons, tested_equals, ih (Nat.succ.inj h)]
      rfl

/-- The predicate of a row with an id tests the id columns, each once and in their order. -/
theorem tested_idPredicate {root : Resource} {id : List Value} {row : Predicate}
    (h : idPredicate root id = .ok row) : row.tested = root.idColumns := by
  unfold idPredicate at h
  split at h
  · cases h
  · next hlength =>
    split at h
    · cases h
    · split at h
      · next hconj =>
        cases h
        rw [tested_conjunction? hconj, tested_zipWith_equals (Decidable.not_not.1 hlength)]
      · cases h

/-! ## Sort keys -/

theorem checkSort_eq_ok {root : Resource} {sort : List SortKey} :
    checkSort root sort = .ok () ↔ ∀ key ∈ sort, root.isAllowedColumn key.column = true := by
  unfold checkSort
  split
  · next key hfind =>
    refine ⟨nofun, fun h => ?_⟩
    have hkey := List.find?_some hfind
    rw [h key (List.mem_of_find?_eq_some hfind)] at hkey
    cases hkey
  · next hfind =>
    refine ⟨fun _ key hkey => ?_, fun _ => rfl⟩
    simpa using List.find?_eq_none.1 hfind key hkey

end Planner

namespace Options

theorem sortable_of_readSort {contract : Contract} {entry : String} {key : SortKey}
    (h : readSort contract entry = .ok key) :
    ∀ names ∈ contract.sortable, names.contains key.column = true := by
  unfold readSort at h
  rintro names hnames
  rw [Option.mem_def] at hnames
  simp only [hnames] at h
  split at h
  · cases h
  · split at h
    · next hc =>
      cases h
      exact hc
    · cases h

/-- A contract that restricts sorting names every sort key. -/
theorem Reads.sortable {p : Parameters} {contract : Contract} {limits : Limits} {o : Options}
    (h : Reads p contract limits o) : ∀ names ∈ contract.sortable, ∀ key ∈ o.sort,
      names.contains key.column = true := by
  intro names hnames key hkey
  obtain ⟨entry, -, hread⟩ := mem_of_mapM h.sort hkey
  exact sortable_of_readSort hread names hnames

end Options

/-! ## Selections -/

/-- A selection names only columns that a request may name: of the root, and of the resource at the
end of each of its paths. -/
structure Selection.Allowed (s : Schema) (root : Resource) (sel : Selection) : Prop where
  topLevel : ∀ column ∈ sel.topLevel, root.isAllowedColumn column = true
  nested : ∀ path columns, sel.nested.get? path = some columns → ∀ column ∈ columns,
    ∃ target, s.walk root (Text.split '/' path) = some target ∧
      target.isAllowedColumn column = true

namespace Selection

variable {s : Schema} {root : Resource}

theorem allowed_empty : empty.Allowed s root := ⟨nofun, nofun⟩

/-- What one more entry adds: a column of the root, or one of the resource at the end of a path that
is expanded. -/
inductive Adds (s : Schema) (root : Resource) (sofar : Selection × Expansion) (entry : String) :
    Selection × Expansion → Prop
  | root : Text.splitLast? '/' entry = none → root.isAllowedColumn entry = true →
      Adds s root sofar entry (⟨sofar.1.topLevel ++ [entry], sofar.1.nested⟩, sofar.2)
  | nested {path column : String} {b : Branch} {target : Resource} :
      Text.splitLast? '/' entry = some (path, column) → sofar.2.branch? path = some b →
        s.get? b.resource = some target → target.isAllowedColumn column = true →
          Adds s root sofar entry (sofar.1.addNested path column, sofar.2.select path column)

theorem adds_of_addEntry {sofar next : Selection × Expansion} {entry : String}
    (h : addEntry s root sofar entry = .ok next) : Adds s root sofar entry next := by
  obtain ⟨sel, e⟩ := sofar
  unfold addEntry at h
  simp only at h
  split at h
  · next hplain =>
    obtain ⟨sel', hadd, h⟩ := bind_eq_ok.1 h
    cases h
    unfold addRoot at hadd
    split at hadd
    · next hc =>
      cases hadd
      exact .root hplain hc
    · cases hadd
  · next path column hsplit =>
    split at h
    · next b hb =>
      split at h
      · next target htarget =>
        split at h
        · next hc =>
          cases h
          exact .nested hsplit hb htarget hc
        · cases h
      · cases h
    · cases h

/-- How a selection is built: from columns within the limit, one after the other. -/
theorem build_eq_ok {entries : List String} {bare : Expansion} {limits : Limits}
    {result : Selection × Expansion} : build s root entries bare limits = .ok result ↔
      (Columns.distinct (entries.map normalize)).length ≤ limits.maxColumns ∧
        (Columns.distinct (entries.map normalize)).foldlM (addEntry s root) (empty, bare) =
          .ok result := by
  rw [build, ← Nat.not_lt]
  exact guard_bind_eq_ok

theorem allowed_addRoot {sel : Selection} {column : String} (h : sel.Allowed s root)
    (hc : root.isAllowedColumn column = true) :
    Allowed s root ⟨sel.topLevel ++ [column], sel.nested⟩ := by
  refine ⟨fun c hmem => ?_, h.nested⟩
  rcases List.mem_append.1 hmem with hmem | hmem
  · exact h.topLevel c hmem
  · exact List.mem_singleton.1 hmem ▸ hc

theorem allowed_addNested {sel : Selection} {path column : String} {target : Resource}
    (h : sel.Allowed s root) (hw : s.walk root (Text.split '/' path) = some target)
    (hc : target.isAllowedColumn column = true) : (sel.addNested path column).Allowed s root := by
  refine ⟨h.topLevel, fun other columns hget c hmem => ?_⟩
  by_cases he : other = path
  · subst he
    have hcolumns : (sel.nested.get? other).getD [] ++ [column] = columns :=
      Option.some.inj ((Dict.get?_insert_self ..).symm.trans hget)
    rw [← hcolumns, List.mem_append, List.mem_singleton] at hmem
    rcases hmem with hmem | rfl
    · cases hold : sel.nested.get? other with
      | none =>
        rw [hold] at hmem
        cases hmem
      | some old =>
        rw [hold] at hmem
        exact h.nested other old hold c hmem
    · exact ⟨target, hw, hc⟩
  · exact h.nested other columns ((Dict.get?_insert_of_ne _ he _).symm.trans hget) c hmem

/-- **One more entry keeps the selection and the expansion within the white list.** -/
theorem allowed_addEntry {sofar next : Selection × Expansion} {entry : String}
    (hs : sofar.1.Allowed s root) (hb : ∀ b ∈ sofar.2.branches, b.Permitted s root)
    (h : addEntry s root sofar entry = .ok next) :
    next.1.Allowed s root ∧ ∀ b ∈ next.2.branches, b.Permitted s root := by
  cases adds_of_addEntry h with
  | root _ hc => exact ⟨allowed_addRoot hs hc, hb⟩
  | @nested path column b target _ hbranch htarget hc =>
    obtain ⟨target', hw, htarget'⟩ := Branch.walk_of_follow? hb hbranch
    obtain rfl : target = target' := Option.some.inj (htarget.symm.trans htarget')
    exact ⟨allowed_addNested hs hw hc, Branch.permitted_select hb hw hc⟩

theorem allowed_build {entries : List String} {bare : Expansion} {limits : Limits}
    {result : Selection × Expansion} (hb : ∀ b ∈ bare.branches, b.Permitted s root)
    (h : build s root entries bare limits = .ok result) :
    result.1.Allowed s root ∧ ∀ b ∈ result.2.branches, b.Permitted s root := by
  exact foldlM_induct
    (fun sofar => sofar.1.Allowed s root ∧ ∀ b ∈ sofar.2.branches, b.Permitted s root)
    (fun _ _ _ _ hsofar hadd => allowed_addEntry hsofar.1 hsofar.2 hadd) ⟨allowed_empty, hb⟩
    (build_eq_ok.1 h).2

/-- The root is read no more than its white list and its joins allow. -/
theorem mayRead_of_mem_rootColumns {sel : Selection} {e : Expansion} (h : sel.Allowed s root)
    {column : String} (hc : column ∈ sel.rootColumns root e) :
    root.MayRead (Branch.ownerColumns e.branches) column := by
  unfold rootColumns Expansion.rootJoinColumns at hc
  rw [Columns.mem_distinct, List.mem_append, List.mem_append, Resource.mem_defaultColumns,
    Branch.mem_joinColumns] at hc
  rcases hc with ((hc | hc) | hc) | hc
  · exact .inr (.inl hc)
  · exact .inr (.inr (.inl hc))
  · exact .inr (.inr (.inr hc))
  · left
    split at hc
    · exact (Resource.mem_allowedColumns.1 hc).2
    · exact h.topLevel column hc

end Selection

/-! ## Plans -/

namespace Plan

/-- The branches that a plan attaches to the rows of its root. -/
def branches (p : Plan) : List Branch := (p.expansion.map (·.branches)).getD []

/-- A plan for the resource `root` that names and reads only what a schema and a contract let a
request name and read. -/
structure Whitelisted (s : Schema) (root : Resource) (contract : Contract) (p : Plan) : Prop where
  /-- The filter tests allowed columns; the id of a single row is tested besides. -/
  predicate : ∀ q ∈ p.predicate, ∀ column ∈ q.columns,
    root.isAllowedColumn column = true ∨ p.isEntity = true ∧ column ∈ root.idColumns
  sort : ∀ key ∈ p.sort, root.isAllowedColumn key.column = true ∧
    ∀ names ∈ contract.sortable, names.contains key.column = true
  /-- At every depth, relations are expanded from the resource that the names above lead to. -/
  expansion : ∀ above b, Branch.At p.branches above b → ∃ owner target,
    s.walk root above = some owner ∧ owner.allowedRelation? b.name = some b.level.relation ∧
      s.get? b.level.relation.target = some target ∧
        (∀ column ∈ b.level.selected, target.isAllowedColumn column = true) ∧
          ∀ column ∈ b.columns,
            target.MayRead (b.level.relation.relatedColumn :: Branch.ownerColumns b.branches) column
  selection : ∀ sel ∈ p.selection, sel.Allowed s root
  rootColumns : ∀ column ∈ p.rootColumns, root.MayRead (Branch.ownerColumns p.branches) column

end Plan

namespace Planner

variable {p : Planner} {resource : String} {parameters : Parameters} {x : Results}

theorem branches_plan (x : Results) : x.plan.branches = x.expansion.branches := by
  unfold Plan.branches Results.plan Expansion.isEmpty
  cases he : x.expansion.branches with
  | nil => simp
  | cons b rest => simp [he]

/-- The levels of the expansion are permitted below the root. -/
theorem Passes.permitted (h : p.Passes resource parameters x) :
    ∀ b ∈ x.expansion.branches, b.Permitted p.schema x.root :=
  (Selection.allowed_build (Expansion.permitted_build h.root h.expand) h.select).2

theorem Passes.allowed (h : p.Passes resource parameters x) :
    x.selection.Allowed p.schema x.root :=
  (Selection.allowed_build (Expansion.permitted_build h.root h.expand) h.select).1

/-- The plan of a page of rows keeps to the white list. -/
theorem Passes.whitelisted (h : p.Passes resource parameters x) :
    x.plan.Whitelisted p.schema x.root (p.config.contractFor resource) where
  predicate q hq column hc :=
    .inl (tested_of_filterPredicate h.filter q hq column (Columns.mem_distinct.1 hc))
  sort key hkey :=
    ⟨checkSort_eq_ok.1 h.sort key hkey, fun names hnames =>
      (Options.validate_eq_ok.1 h.options).sortable names hnames key hkey⟩
  expansion above b hat := by
    rw [branches_plan] at hat
    obtain ⟨owner, target, hw, hl, -⟩ := Branch.permitted_at h.permitted hat
    exact ⟨owner, target, hw, hl.expands, hl.reads, hl.selected_allowed,
      fun column hc => Branch.mayRead_of_permitted hl hc⟩
  selection sel hsel := by
    have hs : (if x.selection.isEmpty then none else some x.selection) = some sel := hsel
    split at hs
    · cases hs
    · cases hs
      exact h.allowed
  rootColumns column hc := by
    rw [branches_plan]
    exact Selection.mayRead_of_mem_rootColumns h.allowed hc

/-- Singling out a row adds only its id to what a plan names. -/
theorem Passes.whitelisted_forRow (h : p.Passes resource parameters x) {id : List Value}
    {row : Predicate} (hrow : idPredicate x.root id = .ok row) :
    (x.plan.forRow row).Whitelisted p.schema x.root (p.config.contractFor resource) := by
  have hpage := h.whitelisted
  have hid : ∀ column ∈ row.tested, column ∈ x.root.idColumns := by
    rw [tested_idPredicate hrow]
    exact fun _ hc => hc
  refine { hpage with predicate := ?_, sort := nofun }
  rintro q ⟨⟩ column hc
  rw [Predicate.columns, Columns.mem_distinct] at hc
  cases hf : x.filter with
  | none =>
    simp only [Results.plan, hf, Option.elim_none] at hc
    exact .inr ⟨rfl, hid column hc⟩
  | some filter =>
    simp only [Results.plan, hf, Option.elim_some, Predicate.tested, List.mem_append] at hc
    rcases hc with hc | hc
    · exact .inr ⟨rfl, hid column hc⟩
    · exact .inl (tested_of_filterPredicate h.filter filter hf column hc)

/-- A compiled plan keeps to the white list of the stages it was made from, and reads the table of
their root and the branches of their expansion. -/
theorem passes_of_compile {plan : Plan} {id : Option (List Value)}
    (h : p.compile resource parameters id = .ok plan) : ∃ x, p.Passes resource parameters x ∧
      plan.Whitelisted p.schema x.root (p.config.contractFor resource) ∧
        plan.isEntity = id.isSome ∧ plan.table = x.root.table ∧
          plan.branches = x.expansion.branches := by
  obtain ⟨x, hx, hplan⟩ := results_of_compile h
  refine ⟨x, hx, ?_⟩
  cases id with
  | none =>
    obtain rfl : plan = x.plan := hplan
    exact ⟨hx.whitelisted, rfl, rfl, branches_plan x⟩
  | some id =>
    obtain ⟨row, hrow, rfl⟩ := hplan
    exact ⟨hx.whitelisted_forRow hrow, rfl, rfl, branches_plan x⟩

/-- **Every compiled plan keeps to the white list.** What it tests, sorts by, expands and selects is
what a request may name, at every level, and what it reads besides identifies and joins rows. -/
theorem compile_whitelisted {plan : Plan} {id : Option (List Value)}
    (h : p.compile resource parameters id = .ok plan) :
    ∃ root, p.schema.get? resource = some root ∧ plan.isEntity = id.isSome ∧
      plan.Whitelisted p.schema root (p.config.contractFor resource) := by
  obtain ⟨x, hx, hw, hentity, -⟩ := passes_of_compile h
  exact ⟨x.root, hx.root, hentity, hw⟩

/-- Staff with a boss and with reports, of whom a request may name no more than id and name. -/
def staff : Resource :=
  { Resource.ofName "staff" with
    properties := ["name", "salary", "boss_id"]
    relations := Dict.ofList [("boss", ⟨.belongsTo, "staff", "boss_id", "id"⟩),
      ("reports", ⟨.hasMany, "staff", "id", "boss_id"⟩)]
    columnList := some (NameSet.ofList ["id", "name"]) }

/-- A schema of staff only. -/
def staffSchema : Schema := ⟨Dict.ofList [("staff", staff)]⟩

/-- A request for a name, the name of the boss, and everyone around. -/
def staffRequest : Parameters :=
  .ofPairs [("$sort", "-name"), ("$expand", "boss/boss,boss/reports,reports"),
    ("$select", "name,boss.name")]

theorem compile_whitelisted_staff : ∃ plan,
    compile ⟨staffSchema, {}⟩ "staff" staffRequest (some [.int 3]) = .ok plan ∧ ∃ root,
      staffSchema.get? "staff" = some root ∧ plan.isEntity = true ∧
        plan.Whitelisted staffSchema root {} := by
  obtain ⟨plan, h⟩ := exists_of_isOk (x := compile ⟨staffSchema, {}⟩ "staff" staffRequest
    (some [.int 3])) (by decide +kernel)
  exact ⟨plan, h, compile_whitelisted h⟩

end Planner

end RequestQuery
