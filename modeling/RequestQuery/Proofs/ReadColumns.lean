import RequestQuery.Proofs.BranchOrder
import RequestQuery.Proofs.StatementNames

/-!
# Columns that are read

What a plan reads of each of its levels is enough to identify the rows, to join them upwards and
downwards, and to answer what was selected there. The root and the levels below it list their
columns by different functions, so both are shown to serve their resource (`Resource.Serves`), which
then holds of every level of every compiled plan.

* `Branch.level_follow?_select`: one more selected column changes the level at its path only.
* `Selection.notes_build`: every entry of a selection is noted where its path leads.
* `Plan.Reads`: the levels of a plan, with the columns that are read there.
* `Planner.reads_of_compile`: what every compiled plan reads.
-/

namespace RequestQuery

open Fallible

/-- A level with one more selected column. -/
def Level.select (l : Level) (column : String) : Level :=
  { l with selected := Columns.add l.selected column }

/-! ## Levels by their paths -/

namespace Branch

variable {branches : List Branch}

theorem find?_cons (name : String) (b : Branch) (branches : List Branch) :
    find? name (b :: branches) = if b.name = name then some b else find? name branches := by
  by_cases h : b.name = name
  · simp [find?, h]
  · simp [find?, h]

theorem find?_put_self (b : Branch) (branches : List Branch) :
    find? b.name (put b branches) = some b := by
  induction branches with
  | nil => simp [put, find?_cons]
  | cons other rest ih =>
    rw [put]
    split
    · simp [find?_cons]
    · split
      · simp [find?_cons]
      · next hne => rw [find?_cons, if_neg fun he => hne he.symm, ih]

theorem find?_put_of_ne {name : String} {b : Branch} (h : name ≠ b.name)
    (branches : List Branch) : find? name (put b branches) = find? name branches := by
  have hb : ¬ b.name = name := fun he => h he.symm
  induction branches with
  | nil => rw [put, find?_cons, if_neg hb]
  | cons other rest ih =>
    rw [put]
    split
    · rw [find?_cons, if_neg hb]
    · split
      · next hname => rw [find?_cons, find?_cons, if_neg hb, if_neg (hname ▸ hb)]
      · rw [find?_cons, find?_cons, ih]

/-- Branches of different names are found by their names. -/
theorem find?_of_mem (h : (branches.map name).Nodup) {b : Branch} (hb : b ∈ branches) :
    find? b.name branches = some b := by
  induction branches with
  | nil => cases hb
  | cons first rest ih =>
    obtain ⟨hfirst, hrest⟩ := List.nodup_cons.1 h
    rw [find?_cons]
    rcases List.mem_cons.1 hb with rfl | hb
    · exact if_pos rfl
    · have hne : first.name ≠ b.name := fun he => hfirst (he ▸ List.mem_map_of_mem hb)
      rw [if_neg hne, ih hrest hb]

/-- The branch at the end of a path from a branch; the empty path ends there. -/
def down? : List String → Branch → Option Branch
  | [], b => some b
  | segments, b => follow? segments b.branches

theorem follow?_cons (segment : String) (rest : List String) (branches : List Branch) :
    follow? (segment :: rest) branches = (find? segment branches).bind (down? rest) := by
  cases hfind : find? segment branches with
  | none => cases rest <;> simp only [follow?, hfind, Option.bind_none]
  | some b => cases rest <;> simp only [follow?, hfind, Option.bind_some, down?]

/-- A branch that is found by its path stands at the end of it. -/
theorem at_of_follow? {segments : List String} {b : Branch}
    (h : follow? segments branches = some b) :
    ∃ above, above ++ [b.name] = segments ∧ At branches above b := by
  induction segments generalizing branches with
  | nil => cases h
  | cons segment rest ih =>
    rw [follow?_cons] at h
    obtain ⟨top, htop, h⟩ := Option.bind_eq_some_iff.1 h
    cases rest with
    | nil =>
      obtain rfl := Option.some.inj h
      exact ⟨[], congrArg (fun name => [name]) (name_of_find? htop), .here (mem_of_find? htop)⟩
    | cons next rest =>
      obtain ⟨above, habove, hat⟩ := ih h
      refine ⟨top.name :: above, ?_, .inside (mem_of_find? htop) hat⟩
      rw [List.cons_append, habove, name_of_find? htop]

/-- At the end of a path stands one branch only. -/
theorem follow?_of_at {above : List String} {b : Branch} (ho : Ordered branches)
    (h : At branches above b) : follow? (above ++ [b.name]) branches = some b := by
  induction h with
  | here hb => rw [List.nil_append, follow?_cons, find?_of_mem ho.nodup hb, Option.bind_some, down?]
  | @inside branches top b above htop hat ih =>
    rw [List.cons_append, follow?_cons, find?_of_mem ho.nodup htop, Option.bind_some]
    have hinside := ih (ho.inside htop)
    cases above with
    | nil => exact hinside
    | cons next above => exact hinside

/-! ## Selecting a column -/

/-- Select one more column at the end of a path from a branch. -/
def selectDown (column : String) : List String → Branch → Branch
  | [], b => mk (b.level.select column) b.branches
  | segments, b => mk b.level (select column segments b.branches)

theorem name_selectDown (column : String) (segments : List String) (b : Branch) :
    (selectDown column segments b).name = b.name := by
  cases segments <;> rfl

theorem select_cons (column segment : String) (rest : List String) (branches : List Branch) :
    select column (segment :: rest) branches =
      (find? segment branches).elim branches fun b => put (selectDown column rest b) branches := by
  rw [select]
  cases find? segment branches <;> cases rest <;> rfl

/-- **One more selected column changes the level at its path only**, and adds no level. -/
theorem level_follow?_select (column : String) (path segments : List String)
    (branches : List Branch) :
    (follow? segments (select column path branches)).map level =
      (follow? segments branches).map fun b =>
        if segments = path then b.level.select column else b.level := by
  induction path generalizing segments branches with
  | nil =>
    cases segments with
    | nil => rfl
    | cons segment rest => rfl
  | cons first path ih =>
    cases segments with
    | nil => rfl
    | cons segment rest =>
      rw [select_cons]
      cases hf : find? first branches with
      | none =>
        rw [Option.elim_none, follow?_cons]
        by_cases he : segment = first
        · rw [he, hf]
          rfl
        · simp only [List.cons.injEq, he, false_and, if_false]
      | some b =>
        rw [Option.elim_some, follow?_cons, follow?_cons]
        have hname : (selectDown column path b).name = first := by
          rw [name_selectDown, name_of_find? hf]
        by_cases he : segment = first
        · subst he
          have hput : find? segment (put (selectDown column path b) branches) =
              some (selectDown column path b) := by
            rw [← find?_put_self (selectDown column path b) branches, hname]
          rw [hput, hf, Option.bind_some, Option.bind_some]
          -- Below the branch that was put back, its own level or the rest of the path changed.
          cases path with
          | nil =>
            cases rest with
            | nil => simp only [down?, selectDown, Option.map_some, level, if_true]
            | cons next rest =>
              simp only [List.cons.injEq, reduceCtorEq, and_false, if_false]
              rfl
          | cons second path =>
            cases rest with
            | nil =>
              simp only [List.cons.injEq, reduceCtorEq, and_false, if_false]
              rfl
            | cons next rest =>
              have hinside := ih (next :: rest) b.branches
              simp only [List.cons.injEq, true_and] at hinside ⊢
              exact hinside
        · rw [find?_put_of_ne (hname ▸ he)]
          simp only [List.cons.injEq, he, false_and, if_false]

end Branch

/-! ## Selections -/

namespace Selection

variable {s : Schema} {root : Resource}

/-- Where an entry asks for a column, as the names on the way to its level, and the column. -/
def place (entry : String) : List String × String :=
  match Text.splitLast? '/' (normalize entry) with
  | none => ([], normalize entry)
  | some (path, column) => (Text.split '/' path, column)

/-- A normalized entry is noted: in the selection for a column of the root, else at the level where
its path ends. -/
structure Notes (sofar : Selection × Expansion) (entry : String) : Prop where
  root : Text.splitLast? '/' entry = none → entry ∈ sofar.1.topLevel
  nested : ∀ path column, Text.splitLast? '/' entry = some (path, column) →
    ∃ b, sofar.2.branch? path = some b ∧ column ∈ b.level.selected

theorem level_branch?_select (e : Expansion) (path other column : String) :
    ((e.select path column).branch? other).map Branch.level = (e.branch? other).map fun b =>
      if Text.split '/' other = Text.split '/' path then b.level.select column else b.level :=
  Branch.level_follow?_select ..

/-- What was selected at a level stays so when one more column is selected. -/
theorem exists_branch?_select {e : Expansion} {other column : String} {b : Branch}
    (hb : e.branch? other = some b) (path column' : String)
    (h : column ∈ b.level.selected ∨ other = path ∧ column = column') :
    ∃ b', (e.select path column').branch? other = some b' ∧ column ∈ b'.level.selected := by
  have hlevel := level_branch?_select e path other column'
  rw [hb, Option.map_some] at hlevel
  obtain ⟨b', hb', hselect⟩ := Option.map_eq_some_iff.1 hlevel
  refine ⟨b', hb', ?_⟩
  rw [hselect]
  split
  · exact Columns.mem_add.2 (h.imp_right And.right)
  · next hne => exact h.resolve_right fun he => hne (congrArg _ he.1)

/-- **One more entry is noted, and every earlier one stays so.** -/
theorem notes_addEntry {sofar next : Selection × Expansion} {entry : String}
    (h : addEntry s root sofar entry = .ok next) :
    Notes next entry ∧ ∀ other, Notes sofar other → Notes next other := by
  cases adds_of_addEntry h with
  | root hplain _ =>
    have hroot : entry ∈ sofar.1.topLevel ++ [entry] := by simp
    refine ⟨⟨fun _ => hroot, fun _ _ hsome => ?_⟩, fun other hother => ?_⟩
    · cases hplain.symm.trans hsome
    · exact ⟨fun hnone => List.mem_append_left _ (hother.root hnone), hother.nested⟩
  | @nested path column b _ hsplit hb _ _ =>
    refine ⟨⟨fun hnone => ?_, fun path' column' hsome => ?_⟩, fun other hother => ?_⟩
    · cases hsplit.symm.trans hnone
    · cases hsplit.symm.trans hsome
      exact exists_branch?_select hb path column (.inr ⟨rfl, rfl⟩)
    · refine ⟨hother.root, fun path' column' hsome => ?_⟩
      obtain ⟨b', hb', hmem⟩ := hother.nested path' column' hsome
      exact exists_branch?_select hb' path column (.inl hmem)

/-- **Every entry of a selection is noted.** -/
theorem notes_build {entries : List String} {bare : Expansion} {limits : Limits}
    {result : Selection × Expansion} (h : build s root entries bare limits = .ok result) :
    ∀ entry ∈ entries, Notes result (normalize entry) := by
  intro entry hentry
  have hunique : normalize entry ∈ Columns.distinct (entries.map normalize) :=
    Columns.mem_distinct.2 (List.mem_map_of_mem hentry)
  exact forall_of_foldlM (P := Notes) (fun _ _ _ h => (notes_addEntry h).1)
    (fun _ _ _ other h => (notes_addEntry h).2 other) (build_eq_ok.1 h).2 _ hunique

end Selection

/-! ## Levels -/

/-- The columns that are read from a resource identify its rows and join them to those of the
branches below, which read the other column of the join, and all are declared. -/
structure Resource.Serves (r : Resource) (columns : List String) (below : List Branch) : Prop where
  identified : ∀ column ∈ r.idColumns, column ∈ columns
  joined : ∀ b ∈ below, b.level.relation.ownerColumn ∈ columns ∧
    b.level.relation.relatedColumn ∈ b.columns
  declared : ∀ column ∈ columns, r.hasColumn column = true

/-- `Reads p path columns below`: at the end of the path, from the root, the plan reads the columns,
and expands the branches from there. -/
inductive Plan.Reads (p : Plan) : List String → List String → List Branch → Prop where
  | root : Reads p [] p.rootColumns p.branches
  | branch {above : List String} {b : Branch} : Branch.At p.branches above b →
    Reads p (above ++ [b.name]) b.columns b.branches

namespace Branch

variable {s : Schema} {parent target : Resource}

/-- A branch reads the column that joins it to the level above. -/
theorem Permitted.related_mem {b : Branch} (h : b.Permitted s parent) :
    b.level.relation.relatedColumn ∈ b.columns := by
  obtain ⟨target, hl, -⟩ := h.top
  rw [mem_columns, hl.defaultColumns_eq]
  exact .inl (Columns.mem_add.2 (.inr rfl))

/-- **A permitted branch serves the resource that it reads.** -/
theorem Permitted.serves (hs : s.Closed) (hp : parent.Fits s.resources) {b : Branch}
    (hb : b.Permitted s parent) : ∃ target, parent.allowedRelation? b.name = some b.level.relation ∧
      s.get? b.level.relation.target = some target ∧ target.Serves b.columns b.branches := by
  obtain ⟨target, hl, -, hbelow, -, hdeclared⟩ := hb.declared hs hp
  refine ⟨target, hl.expands, hl.reads, fun column hc => ?_, fun c hc => ⟨?_, ?_⟩, hdeclared⟩
  · rw [mem_columns, hl.defaultColumns_eq, Columns.mem_add, Resource.mem_defaultColumns]
    exact .inl (.inl (.inl hc))
  · exact mem_columns.2 (.inr (.inl (List.mem_map_of_mem hc)))
  · exact (hbelow c hc).related_mem

/-- A selected column is read. -/
theorem selected_mem_columns {b : Branch} {column : String} (h : column ∈ b.level.selected) :
    column ∈ b.columns := by
  rw [mem_columns, if_neg (by rw [List.isEmpty_iff]; exact List.ne_nil_of_mem h)]
  exact .inr (.inr h)

end Branch

/-! ## Compiled plans -/

namespace Planner

variable {p : Planner} {resource : String} {parameters : Parameters} {x : Results} {plan : Plan}
  {id : Option (List Value)}

/-- A plan reads of its root what the stages of its compilation give, also for a single row. -/
theorem rootColumns_of_compile (h : p.compile resource parameters id = .ok plan) :
    ∃ x, p.Passes resource parameters x ∧ plan.branches = x.plan.branches ∧
      plan.rootColumns = x.plan.rootColumns := by
  obtain ⟨x, hx, hplan⟩ := results_of_compile h
  refine ⟨x, hx, ?_⟩
  cases id with
  | none =>
    obtain rfl : plan = x.plan := hplan
    exact ⟨rfl, rfl⟩
  | some id =>
    obtain ⟨row, -, rfl⟩ := hplan
    exact ⟨rfl, rfl⟩

theorem mem_rootColumns_plan (x : Results) {column : String} : column ∈ x.plan.rootColumns ↔
    (column ∈ x.root.defaultColumns ∨ column ∈ Branch.ownerColumns x.expansion.branches) ∨
      column ∈ if x.selection.topLevel.isEmpty then x.root.allowedColumns
        else x.selection.topLevel := by
  rw [Results.plan, Selection.rootColumns, Expansion.rootJoinColumns, Columns.mem_distinct,
    List.mem_append, List.mem_append, Branch.mem_joinColumns]

/-- **The root is served by the columns that are read of it.** -/
theorem Passes.serves (hx : p.Passes resource parameters x) (hs : p.schema.Closed) :
    x.root.Serves x.plan.rootColumns x.plan.branches := by
  have hf : x.root.Fits p.schema.resources := hs.fits _ _ hx.root
  rw [branches_plan]
  refine ⟨fun column hc => ?_, fun b hb => ⟨?_, ?_⟩, hx.whitelisted.rootColumn_declared hf⟩
  · exact (mem_rootColumns_plan x).2 (.inl (.inl (Resource.mem_defaultColumns.2 (.inl hc))))
  · exact (mem_rootColumns_plan x).2 (.inl (.inr (List.mem_map_of_mem hb)))
  · exact (hx.permitted b hb).related_mem

/-- At the end of a path a plan reads the columns of one level. -/
theorem reads_iff (h : p.compile resource parameters id = .ok plan) {path columns : List String}
    {below : List Branch} : plan.Reads path columns below ↔
      path = [] ∧ columns = plan.rootColumns ∧ below = plan.branches ∨
        ∃ b, Branch.follow? path plan.branches = some b ∧ columns = b.columns ∧
          below = b.branches := by
  constructor
  · intro hreads
    cases hreads with
    | root => exact .inl ⟨rfl, rfl, rfl⟩
    | @branch above b hat =>
      exact .inr ⟨b, Branch.follow?_of_at (ordered_of_compile h) hat, rfl, rfl⟩
  · rintro (⟨rfl, rfl, rfl⟩ | ⟨b, hb, rfl, rfl⟩)
    · exact .root
    · obtain ⟨above, rfl, hat⟩ := Branch.at_of_follow? hb
      exact .branch hat

theorem reads_unique (h : p.compile resource parameters id = .ok plan)
    {path columns columns' : List String} {below below' : List Branch}
    (hreads : plan.Reads path columns below) (hreads' : plan.Reads path columns' below') :
    columns = columns' := by
  rcases (reads_iff h).1 hreads with ⟨rfl, rfl, -⟩ | ⟨b, hb, rfl, -⟩ <;>
    rcases (reads_iff h).1 hreads' with ⟨hpath, rfl, -⟩ | ⟨b', hb', rfl, -⟩
  · rfl
  · cases hb'
  · rw [hpath] at hb
    cases hb
  · rw [Option.some.inj (hb.symm.trans hb')]

/-- What a request selected is read where its path leads. -/
theorem reads_selected (h : p.compile resource parameters id = .ok plan) {entry column : String}
    {path : List String} (hentry : entry ∈ Options.entries parameters .select)
    (hplace : Selection.place entry = (path, column)) :
    ∃ columns below, plan.Reads path columns below ∧ column ∈ columns := by
  obtain ⟨x, hx, hbranches, hroot⟩ := rootColumns_of_compile h
  have hread := Options.validate_eq_ok.1 hx.options
  have hnotes := Selection.notes_build hx.select entry (hread.select ▸ hentry)
  unfold Selection.place at hplace
  cases hsplit : Text.splitLast? '/' (Selection.normalize entry) with
  | none =>
    rw [hsplit] at hplace
    cases hplace
    refine ⟨_, _, .root, ?_⟩
    have htop := hnotes.root hsplit
    have hsome : ¬ x.selection.topLevel.isEmpty := by
      rw [List.isEmpty_iff]
      exact List.ne_nil_of_mem htop
    rw [hroot, mem_rootColumns_plan, if_neg hsome]
    exact .inr htop
  | some found =>
    obtain ⟨before, last⟩ := found
    rw [hsplit] at hplace
    cases hplace
    obtain ⟨b, hb, hselected⟩ := hnotes.nested _ _ hsplit
    refine ⟨_, _, (reads_iff h).2 (.inr ⟨b, ?_, rfl, rfl⟩), Branch.selected_mem_columns hselected⟩
    rw [hbranches, branches_plan]
    exact hb

/-- **Whatever is selected, every level of a compiled plan can be joined.** What is read at a level
identifies its rows, joins them to every relation expanded there, which reads the other column of
the join, and consists of declared columns, at the root without repeats; and a column that the
request selected is read at the level that its path leads to, which is one of the plan. -/
theorem reads_of_compile {resources : List Resource} (hs : Schema.build resources = .ok p.schema)
    (h : p.compile resource parameters id = .ok plan) :
    plan.rootColumns.Nodup ∧ ∃ root, p.schema.get? resource = some root ∧
      (∀ path columns below, plan.Reads path columns below →
        ∃ r, p.schema.walk root path = some r ∧ r.Serves columns below) ∧
      ∀ entry ∈ Options.entries parameters .select, ∀ path column,
        Selection.place entry = (path, column) → (∃ columns below, plan.Reads path columns below) ∧
          ∀ columns below, plan.Reads path columns below → column ∈ columns := by
  obtain ⟨x, hx, hbranches, hroot⟩ := rootColumns_of_compile h
  have hclosed : p.schema.Closed := Schema.closed_of_build hs
  refine ⟨hroot ▸ Columns.nodup_distinct _, x.root, hx.root, ?_, ?_⟩
  · intro path columns below hreads
    cases hreads with
    | root => exact ⟨x.root, rfl, hroot ▸ hbranches ▸ hx.serves hclosed⟩
    | @branch above b hat =>
      rw [hbranches, branches_plan] at hat
      obtain ⟨owner, target, howner, hl, hbelow⟩ := Branch.permitted_at hx.permitted hat
      have hfits := hclosed.fits_of_walk (hclosed.fits _ _ hx.root) howner
      have hb : b.Permitted p.schema owner := by
        cases b with
        | mk level branches => exact .mk hl hbelow
      obtain ⟨r, hr, htarget, hserves⟩ := hb.serves hclosed hfits
      have hwalk := Schema.walk_append howner [b.name]
      rw [Schema.walk_cons hr htarget, Schema.walk] at hwalk
      exact ⟨r, hwalk, hserves⟩
  · intro entry hentry path column hplace
    obtain ⟨columns, below, hreads, hmem⟩ := reads_selected h hentry hplace
    exact ⟨⟨columns, below, hreads⟩, fun columns' below' hreads' =>
      reads_unique h hreads hreads' ▸ hmem⟩

/-- Names are selected, and the columns that join staff to the boss and to the reports are read
besides, though a request may not name them. -/
theorem reads_of_compile_staff : Schema.build [staff] = .ok staffSchema ∧ ∃ plan,
    compile ⟨staffSchema, {}⟩ "staff" staffRequest (some [.int 3]) = .ok plan ∧
      plan.rootColumns.Nodup ∧ ∃ root, staffSchema.get? "staff" = some root ∧
        (∀ path columns below, plan.Reads path columns below →
          ∃ r, staffSchema.walk root path = some r ∧ r.Serves columns below) ∧
        ∀ entry ∈ Options.entries staffRequest .select, ∀ path column,
          Selection.place entry = (path, column) →
            (∃ columns below, plan.Reads path columns below) ∧
            ∀ columns below, plan.Reads path columns below → column ∈ columns := by
  have hs : Schema.build [staff] = .ok staffSchema := by rfl
  obtain ⟨plan, h⟩ := exists_of_isOk (x := compile ⟨staffSchema, {}⟩ "staff" staffRequest
    (some [.int 3])) (by decide +kernel)
  exact ⟨hs, plan, h, reads_of_compile hs h⟩

end Planner

end RequestQuery
