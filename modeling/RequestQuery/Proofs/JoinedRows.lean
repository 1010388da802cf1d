import RequestQuery.Proofs.BranchOrder
import RequestQuery.Proofs.JoinKey
import RequestQuery.Proofs.LoadRun

/-!
# Joined rows

Loading goes level by level: the values to look up are collected, one statement reads the rows of a
relation for all rows above, everything below is attached to those, and only then are they matched
by texts and attached. What comes out is the join that a nested loop over the same answers would
give.

* `Found`: the rows that a database returned for the branches of an expansion, nothing attached;
  `Branch.read`, `Plan.read` ask for them.
* `Found.expanded`: a row with what was found for it attached, by the nested loop.
* `Branch.Apart`: no relation is named like a column that joins rows of its level.
* `Branch.Apart.loadAllJoined`, `Plan.run_joins`: loading gives the expanded rows.
-/

namespace RequestQuery

/-! ## Answers -/

/-- The rows that a database returned for a branch, and what it returned for the branches below. -/
inductive Found where
  | mk (level : Level) (rows : List Row) (nested : List Found)

namespace Found

/-- What was read for the relation. -/
def level : Found → Level
  | mk level _ _ => level

/-- The rows that were returned. -/
def rows : Found → List Row
  | mk _ rows _ => rows

/-- What was found for the branches below. -/
def nested : Found → List Found
  | mk _ _ nested => nested

/-- The name of the relation. -/
def name (f : Found) : String := f.level.name

mutual

/-- The branch for which the rows were returned. -/
def branch : Found → Branch
  | mk level _ nested => .mk level (branches nested)

/-- The branches for which rows were returned. -/
def branches : List Found → List Branch
  | [] => []
  | f :: rest => f.branch :: branches rest

end

theorem name_branch (f : Found) : f.branch.name = f.name := by
  cases f with
  | mk level rows nested => rfl

theorem branches_branch (f : Found) : f.branch.branches = branches f.nested := by
  cases f with
  | mk level rows nested => rfl

theorem mem_branches {f : Found} {fs : List Found} (h : f ∈ fs) : f.branch ∈ branches fs := by
  induction h with
  | head rest => exact List.mem_cons_self
  | tail other _ ih => exact List.mem_cons_of_mem _ ih

theorem map_name_branches (fs : List Found) : (branches fs).map Branch.name = fs.map name := by
  induction fs with
  | nil => rfl
  | cons f rest ih => rw [branches, List.map_cons, List.map_cons, ih, name_branch]

/-- `LevelOf gs fs`: `gs` is what was found at one of the levels of `fs`. -/
inductive LevelOf : List Found → List Found → Prop where
  | top (fs : List Found) : LevelOf fs fs
  | inside {f : Found} {gs fs : List Found} : f ∈ fs → LevelOf gs f.nested → LevelOf gs fs

/-- Every level of ordered branches is ordered. -/
theorem LevelOf.ordered {gs fs : List Found} (h : LevelOf gs fs)
    (ho : Branch.Ordered (branches fs)) : Branch.Ordered (branches gs) := by
  induction h with
  | top fs => exact ho
  | inside hf _ ih => exact ih (branches_branch _ ▸ ho.inside (mem_branches hf))

/-! ## The nested loop -/

mutual

/-- What a row holds under the name of a relation: all the rows that were returned for it and join
to the row, or the first or null, each expanded in turn. -/
def held : Found → Row → Json
  | mk level rows nested, parent =>
    attachment level.relation.kind
      ((rows.filter (level.relation.Joins parent ·)).map fun row => expand nested row row)

/-- Put what a row holds for each relation into another row. -/
def expand : List Found → Row → Row → Row
  | [], _, out => out
  | f :: rest, row, out => expand rest row (Entries.put f.name (f.held row) out)

end

/-- A row with what was found for it attached. -/
def expanded (fs : List Found) (row : Row) : Row := expand fs row row

theorem held_eq (f : Found) (row : Row) : f.held row = attachment f.level.relation.kind
    ((f.rows.filter (f.level.relation.Joins row ·)).map (expanded f.nested)) := by
  cases f with
  | mk level rows nested =>
    rw [held]
    rfl

/-- What is not named like a relation stays. -/
theorem get?_expand_of_notMem {key : String} {fs : List Found} (h : key ∉ fs.map name)
    (row out : Row) : Entries.get? key (expand fs row out) = Entries.get? key out := by
  induction fs generalizing out with
  | nil => rfl
  | cons f rest ih =>
    rw [List.map_cons, List.mem_cons, not_or] at h
    rw [expand, ih h.2, Entries.get?_put_of_ne h.1]

theorem get?_expand {f : Found} {fs : List Found} (hnames : (fs.map name).Nodup) (h : f ∈ fs)
    (row out : Row) : Entries.get? f.name (expand fs row out) = some (f.held row) := by
  induction fs generalizing out with
  | nil => cases h
  | cons first rest ih =>
    obtain ⟨hfirst, hrest⟩ := List.nodup_cons.1 hnames
    rw [expand]
    rcases List.mem_cons.1 h with rfl | h
    · rw [get?_expand_of_notMem hfirst, Entries.get?_put_self]
    · exact ih hrest h _

/-- A row without a string, number or boolean in the owner column is joined to nothing. -/
theorem held_of_scalarAt_eq_none {f : Found} {row : Row}
    (h : scalarAt f.level.relation.ownerColumn row = none) :
    f.held row = attachment f.level.relation.kind [] := by
  rw [held_eq, Relation.filter_joins_eq_nil h, List.map_nil]

end Found

/-! ## Reading without attaching -/

namespace Branch

variable {σ ε : Type} (db : Database σ ε) (d : Sql.Dialect)

mutual

/-- Ask for the rows of a branch and of the branches below it. -/
def read : Branch → List Row → Load σ ε Found
  | .mk level branches, parents => do
    let rows ← (Branch.mk level branches).rows db d parents
    let nested ← readAll branches rows
    return .mk level rows nested

/-- Ask for the rows of branches, one after the other. -/
def readAll : List Branch → List Row → Load σ ε (List Found)
  | [], _ => pure []
  | b :: rest, parents => do
    let f ← b.read parents
    let fs ← readAll rest parents
    return f :: fs

end

mutual

/-- What is read for a branch is for that branch. -/
theorem gives_read : (b : Branch) → (parents : List Row) →
    (b.read db d parents).Gives fun f => f.branch = b
  | .mk level branches, parents => by
    rw [read]
    refine .bind (.any _) fun rows _ => ?_
    refine .bind (gives_readAll branches rows) fun nested hnested => .pure ?_
    rw [Found.branch, hnested]

theorem gives_readAll : (branches : List Branch) → (parents : List Row) →
    (readAll db d branches parents).Gives fun fs => Found.branches fs = branches
  | [], parents => by
    rw [readAll]
    exact .pure rfl
  | b :: rest, parents => by
    rw [readAll]
    refine .bind (gives_read b parents) fun f hf => ?_
    refine .bind (gives_readAll rest parents) fun fs hfs => .pure ?_
    rw [Found.branches, hf, hfs]

end

/-! ## Loading is reading and expanding -/

/-- A change of rows that keeps what they hold in a column. -/
def Keeps (column : String) (g : Row → Row) : Prop :=
  ∀ row, Entries.get? column (g row) = Entries.get? column row

/-- The rows of a branch depend on the owner column of the rows above only. -/
theorem rows_map (b : Branch) {g : Row → Row} (hg : Keeps b.level.relation.ownerColumn g)
    (parents : List Row) : b.rows db d (parents.map g) = b.rows db d parents := by
  have hkeys : ownerKeys b.level.relation.ownerColumn (parents.map g) =
      ownerKeys b.level.relation.ownerColumn parents := by
    rw [ownerKeys, ownerKeys, List.filterMap_map]
    exact congrArg (keysOf []) (List.filterMap_congr fun row _ => hg row)
  rw [rows, rows, hkeys]

/-- Expanded rows are attached as the nested loop attaches them, unless the columns by which they
are joined were overwritten. -/
theorem attach_map {level : Level} {nested : List Found} {g : Row → Row}
    (hrelated : level.relation.relatedColumn ∉ nested.map Found.name)
    (hg : Keeps level.relation.ownerColumn g) (found parents : List Row) :
    attach level (found.map (Found.expanded nested)) (parents.map g) =
      parents.map fun row =>
        Entries.put level.name ((Found.mk level found nested).held row) (g row) := by
  rw [attach, List.map_map]
  refine List.map_congr_left fun row _ => ?_
  have hjoins : ∀ other ∈ found,
      decide (level.relation.Joins (g row) (Found.expanded nested other)) =
        decide (level.relation.Joins row other) := fun other _ => decide_eq_decide.2 <|
    Relation.joins_congr (hg row) (Found.get?_expand_of_notMem hrelated other other)
  have hmatching : matching level.relation
      (.ofRows level.relation.relatedColumn (found.map (Found.expanded nested))) (g row) =
        (found.filter (level.relation.Joins row ·)).map (Found.expanded nested) := by
    rw [matching_eq, List.filter_map]
    exact congrArg _ (List.filter_congr hjoins)
  rw [Function.comp, attachTo, hmatching, Found.held_eq]
  rfl

/-- A branch is attached as the nested loop attaches it, whatever was attached before, if that left
the owner column alone. -/
def LoadsJoined (b : Branch) : Prop :=
  ∀ g, Keeps b.level.relation.ownerColumn g → ∀ parents, b.load db d (parents.map g) =
    (fun f => parents.map fun row => Entries.put f.name (f.held row) (g row)) <$>
      b.read db d parents

/-- Branches give the rows above them expanded. -/
def LoadAllJoined (branches : List Branch) : Prop :=
  ∀ parents, loadAll db d branches parents =
    (fun fs => parents.map (Found.expanded fs)) <$> readAll db d branches parents

variable {db d}

/-- **One level is attached as the nested loop attaches it**, if everything below it is. -/
theorem loadsJoined {b : Branch} (hbelow : LoadAllJoined db d b.branches)
    (hrelated : b.level.relation.relatedColumn ∉ b.branches.map name) : LoadsJoined db d b := by
  intro g hg parents
  cases b with
  | mk level branches =>
    rw [load, read, rows_map db d _ hg, map_bind]
    refine bind_congr fun found => ?_
    have hfound : loadAll db d branches found =
        (fun fs => found.map (Found.expanded fs)) <$> readAll db d branches found := hbelow found
    rw [hfound, bind_map_left, map_bind]
    refine (gives_readAll db d branches found).bind_congr fun nested hbranches => ?_
    have hnames : level.relation.relatedColumn ∉ nested.map Found.name := by
      rw [← Found.map_name_branches, hbranches]
      exact hrelated
    rw [attach_map hnames hg, map_pure]
    rfl

/-- Branches side by side are attached one after the other: what is attached for one leaves alone
the owner columns of those that follow. -/
theorem loadAll_map {branches : List Branch} (hload : ∀ b ∈ branches, LoadsJoined db d b)
    (hnames : ∀ b ∈ branches, b.name ∉ ownerColumns branches) {g : Row → Row}
    (hg : ∀ column ∈ ownerColumns branches, Keeps column g) (parents : List Row) :
    loadAll db d branches (parents.map g) =
      (fun fs => parents.map fun row => Found.expand fs row (g row)) <$>
        readAll db d branches parents := by
  induction branches generalizing g with
  | nil =>
    rw [loadAll, readAll, map_pure]
    rfl
  | cons b rest ih =>
    rw [loadAll, readAll, hload b List.mem_cons_self g (hg _ List.mem_cons_self), bind_map_left,
      map_bind]
    refine (gives_read db d b parents).bind_congr fun f hf => ?_
    have hname : f.name = b.name := by rw [← Found.name_branch, hf]
    have hput : ∀ column ∈ ownerColumns rest,
        Keeps column fun row => Entries.put f.name (f.held row) (g row) := by
      intro column hcolumn row
      have hne : column ≠ f.name := fun he =>
        hnames b List.mem_cons_self (hname ▸ he ▸ List.mem_cons_of_mem _ hcolumn)
      rw [Entries.get?_put_of_ne hne, hg column (List.mem_cons_of_mem _ hcolumn)]
    have hrest := ih (fun c hc => hload c (List.mem_cons_of_mem _ hc))
      (fun c hc hmem => hnames c (List.mem_cons_of_mem _ hc) (List.mem_cons_of_mem _ hmem)) hput
    rw [hrest, map_bind, map_eq_pure_bind]
    refine bind_congr fun fs => ?_
    rw [map_pure]
    rfl

/-- No relation is named like a column that joins rows of its level: like one of the given columns,
by which the rows are joined to those above, or like one by which those below are joined to them. -/
inductive Apart : List String → List Branch → Prop where
  | mk {above : List String} {branches : List Branch} :
    (∀ b ∈ branches, b.name ∉ above ∧ b.name ∉ ownerColumns branches) →
      (∀ b ∈ branches, Apart [b.level.relation.relatedColumn] b.branches) → Apart above branches

theorem Apart.notMem {above : List String} {branches : List Branch} (h : Apart above branches)
    {column : String} (hc : column ∈ above) : column ∉ branches.map name := by
  cases h with
  | mk hnames _ =>
    intro hmem
    obtain ⟨b, hb, rfl⟩ := List.mem_map.1 hmem
    exact (hnames b hb).1 hc

/-- **Loading branches gives the rows above them expanded**, at any depth, and asks the same
statements. -/
theorem Apart.loadAllJoined {above : List String} {branches : List Branch}
    (h : Apart above branches) : LoadAllJoined db d branches := by
  induction h with
  | @mk above branches hnames hbelow ih =>
    intro parents
    have hload : ∀ b ∈ branches, LoadsJoined db d b := fun b hb =>
      loadsJoined (ih b hb) ((hbelow b hb).notMem (List.mem_singleton_self _))
    have hall :=
      loadAll_map hload (fun b hb => (hnames b hb).2) (g := id) (fun _ _ _ => rfl) parents
    rw [List.map_id] at hall
    exact hall

end Branch

/-! ## Plans -/

/-- What a database returned for a plan. -/
structure Answers where
  roots : List Row
  found : List Found
  count : Option UInt64

/-- The rows of the root, expanded. -/
def Answers.rows (a : Answers) : List Row := a.roots.map (Found.expanded a.found)

/-- The result that the answers to a plan make: for a page all the rows of the root, for a single
row the first. -/
def Answers.envelope (a : Answers) : Plan.Shape → Envelope
  | .collection => .collection a.rows a.count
  | .entity => .ofRow a.rows.head? a.count

namespace Plan

variable {σ ε : Type}

/-- Ask what a run of the plan asks, and attach nothing. -/
def read (db : Database σ ε) (p : Plan) (query : Sql.Query) : Load σ ε Answers := do
  let applied ← Load.ofNames (p.applyTo query)
  let roots ← Load.ask db applied.select
  let found ← Branch.readAll db query.dialect p.branches roots
  let count ← if p.wantCount then some <$> Load.count db applied else pure none
  return ⟨roots, found, count⟩

/-- A run of a plan makes its result of the answers that it gets. -/
theorem run_eq {p : Plan} (h : Branch.Apart [] p.branches) (db : Database σ ε) (query : Sql.Query) :
    p.run db query = (fun a => a.envelope p.shape) <$> p.read db query := by
  rw [run, read, map_bind]
  refine bind_congr fun applied => ?_
  rw [map_bind]
  refine bind_congr fun roots => ?_
  have hload : Branch.loadAll db query.dialect ((p.expansion.map (·.branches)).getD []) roots =
      (fun fs => roots.map (Found.expanded fs)) <$>
        Branch.readAll db query.dialect p.branches roots := h.loadAllJoined roots
  rw [hload, bind_map_left, map_bind]
  refine bind_congr fun found => ?_
  cases p.shape <;> cases p.wantCount <;>
    simp only [Answers.envelope, Answers.rows, Bool.false_eq_true, if_true, if_false, map_bind,
      map_pure]

theorem gives_read (db : Database σ ε) (p : Plan) (query : Sql.Query) :
    (p.read db query).Gives fun a => Found.branches a.found = p.branches := by
  refine .bind (.any _) fun applied _ => .bind (.any _) fun roots _ => ?_
  refine .bind (Branch.gives_readAll db query.dialect p.branches roots) fun found hfound => ?_
  simp only
  split
  · exact .bind (.any _) fun count _ => .pure hfound
  · exact .bind (.any _) fun count _ => .pure hfound

/-- **Loading computes the join.** A run makes its result of the rows of the root, in the number and
order in which they were returned, each expanded: at every level a row holds under the name of each
relation all the rows that were returned for it and join to the row, in order, or the first of them
or null, each expanded by the same rule; a row without a key is joined to nothing, and what is not
named like a relation stays. The result for a page has all these rows, the one for a single row the
first, with the count put into it. The branches of every compiled plan are ordered. -/
theorem run_joins {p : Plan} (ho : Branch.Ordered p.branches) (ha : Branch.Apart [] p.branches)
    (db : Database σ ε) (query : Sql.Query) :
    p.run db query = (fun a => a.envelope p.shape) <$> p.read db query ∧
      ∀ session a after, (p.read db query).run session = (.ok a, after) →
        Found.branches a.found = p.branches ∧ ∀ fs, Found.LevelOf fs a.found → ∀ row,
          (∀ f ∈ fs, Entries.get? f.name (Found.expanded fs row) =
            some (attachment f.level.relation.kind
              ((f.rows.filter (f.level.relation.Joins row ·)).map (Found.expanded f.nested)))) ∧
          (∀ f ∈ fs, scalarAt f.level.relation.ownerColumn row = none →
            Entries.get? f.name (Found.expanded fs row) =
              some (attachment f.level.relation.kind [])) ∧
          ∀ key, key ∉ fs.map Found.name →
            Entries.get? key (Found.expanded fs row) = Entries.get? key row := by
  refine ⟨run_eq ha db query, fun session a after hrun => ?_⟩
  have hbranches : Found.branches a.found = p.branches := gives_read db p query _ _ _ hrun
  refine ⟨hbranches, fun fs hlevel row => ?_⟩
  have hnames : (fs.map Found.name).Nodup := by
    rw [← Found.map_name_branches]
    exact (hlevel.ordered (hbranches ▸ ho)).nodup
  have hheld : ∀ f ∈ fs, Entries.get? f.name (Found.expanded fs row) = some (f.held row) :=
    fun f hf => Found.get?_expand hnames hf row row
  refine ⟨fun f hf => ?_, fun f hf hnone => ?_, fun key hkey =>
    Found.get?_expand_of_notMem hkey row row⟩
  · rw [hheld f hf, Found.held_eq]
  · rw [hheld f hf, Found.held_of_scalarAt_eq_none hnone]

/-- A database that returns prepared answers, one for each statement. -/
def prepared : Database (List (List Row)) Unit where
  answer _ answers :=
    match answers with
    | [] => (.error (), [])
    | rows :: rest => (.ok rows, rest)

/-- The relation of customers to their orders, with that of an order to its product. -/
def orders : Branch :=
  .mk
    { name := "orders"
      path := "orders"
      relation := ⟨.hasMany, "orders", "id", "customer_id"⟩
      table := "orders"
      primaryKey := ["id"]
      defaultColumns := ["id", "customer_id"]
      allowedColumns := ["id"]
      selected := [] }
    [.mk
      { name := "product"
        path := "orders/product"
        relation := ⟨.belongsTo, "products", "product_id", "id"⟩
        table := "products"
        primaryKey := ["id"]
        defaultColumns := ["id"]
        allowedColumns := ["id"]
        selected := [] } []]

/-- All customers, with their orders and the products of these. -/
def customers : Plan where
  resource := "customers"
  table := "customers"
  shape := .collection
  predicate := none
  sort := []
  offset := none
  limit := none
  rootColumns := ["id"]
  expansion := some ⟨[orders]⟩
  selection := none
  wantCount := false

/-- A query of customers that nothing restricts. -/
def customersQuery : Sql.Query where
  dialect := .postgres
  table := ⟨"customers", by decide⟩
  columns := []
  conditions := []
  tree := none
  order := []
  maxRows := none
  skipped := none

/-- The text `"1"` and null join to nothing, and neither does the text `"7"`. -/
theorem run_joins_customers :
    ((customers.run prepared customersQuery).run ⟨[
      [[("id", .int 2)], [("id", .text "1")], [("id", .int 1)], [("id", .null)]],
      [[("customer_id", .int 1), ("id", .int 10), ("product_id", .int 7)],
        [("customer_id", .int 2), ("id", .int 11), ("product_id", .null)],
        [("customer_id", .int 1), ("id", .int 12), ("product_id", .text "7")]],
      [[("id", .int 7)]]], []⟩).1 =
    .ok (.collection [
      [("id", .int 2), ("orders", .array [
        .object [("customer_id", .int 2), ("id", .int 11), ("product", .null),
          ("product_id", .null)]])],
      [("id", .text "1"), ("orders", .array [])],
      [("id", .int 1), ("orders", .array [
        .object [("customer_id", .int 1), ("id", .int 10), ("product", .object [("id", .int 7)]),
          ("product_id", .int 7)],
        .object [("customer_id", .int 1), ("id", .int 12), ("product", .null),
          ("product_id", .text "7")]])],
      [("id", .null), ("orders", .array [])]] none) := by
  have ho : Branch.Ordered customers.branches :=
    .mk (List.pairwise_singleton _ _) (List.forall_mem_singleton.2 <|
      .mk (List.pairwise_singleton _ _) (List.forall_mem_singleton.2 Branch.ordered_nil))
  have ha : Branch.Apart [] customers.branches :=
    .mk (by decide) (List.forall_mem_singleton.2 <|
      .mk (by decide) (List.forall_mem_singleton.2 (.mk nofun nofun)))
  rw [(run_joins ho ha prepared customersQuery).1]
  rfl

/-- The customer with an id, with the orders under the name `count`, and the number of such
customers. -/
def countedCustomer : Plan where
  resource := "customers"
  table := "customers"
  shape := .entity
  predicate := some (.compare "id" .eq (.int 1))
  sort := []
  offset := none
  limit := some 1
  rootColumns := ["id"]
  expansion := some ⟨[.mk { orders.level with name := "count", path := "count" } []]⟩
  selection := none
  wantCount := true

/-- A result for a single row is the first row only, whatever number of rows the database returned,
and the count takes the place of a relation of that name. -/
theorem entity_not_joined :
    let session : Session (List (List Row)) := ⟨[
      [[("id", .int 1)], [("id", .int 1)]],
      [[("customer_id", .int 1), ("id", .int 10)]],
      [[("count", .int 2)]]], []⟩
    Branch.Ordered countedCustomer.branches ∧ Branch.Apart [] countedCustomer.branches ∧
      ((countedCustomer.read prepared customersQuery).run session).1.map Answers.rows = .ok [
        [("count", .array [.object [("customer_id", .int 1), ("id", .int 10)]]), ("id", .int 1)],
        [("count", .array [.object [("customer_id", .int 1), ("id", .int 10)]]), ("id", .int 1)]] ∧
      ((countedCustomer.run prepared customersQuery).run session).1.map Envelope.rows = .ok [
        [("count", .int 2), ("id", .int 1)]] := by
  have ho : Branch.Ordered countedCustomer.branches :=
    .mk (List.pairwise_singleton _ _) (List.forall_mem_singleton.2 Branch.ordered_nil)
  have ha : Branch.Apart [] countedCustomer.branches :=
    .mk (by decide) (List.forall_mem_singleton.2 (.mk nofun nofun))
  exact ⟨ho, ha, rfl, rfl⟩

end Plan

end RequestQuery
