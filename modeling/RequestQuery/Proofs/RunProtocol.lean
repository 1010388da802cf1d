import RequestQuery.Proofs.Conversation
import RequestQuery.Proofs.CountValue
import RequestQuery.Proofs.KeptColumns
import RequestQuery.Proofs.LookupKeys
import RequestQuery.Proofs.ReadColumns
import RequestQuery.Proofs.TrustedScope

/-!
# The protocol of a run

A run of a compiled plan asks for the rows of the root, then for those of each branch of the
expansion in pre-order, where rows above it have keys, and last for the count. It stops at the first
statement that the database does not answer.

* `Branch.selects_of_statement`: the statement of a branch reads its columns from its table.
* `Branch.keepsTo_read`: reading a permitted branch visits it and the branches below it.
* `Plan.AsksRoot`: the statements of the root, its rows and their number.
* `Plan.Runs`: how a plan runs; `Planner.runs_of_compile`: every compiled plan runs so.
-/

namespace RequestQuery

open Fallible

/-! ## Keys -/

/-- Nothing is looked up exactly when no row has a key. -/
theorem ownerKeys_eq_nil_iff {column : String} {rows : List Row} :
    ownerKeys column rows = [] ↔ ¬ Task.HasKey column rows := by
  rw [ownerKeys_eq, List.map_eq_nil_iff, List.eq_nil_iff_forall_not_mem]
  simp only [mem_found, Task.HasKey]
  constructor
  · rintro h ⟨row, hrow, key, hkey⟩
    exact h key ⟨row, hrow, hkey⟩
  · rintro h key ⟨row, hrow, hkey⟩
    exact h ⟨row, hrow, key, hkey⟩

/-! ## Statements -/

namespace Sql

theorem map_text_of_mapM_nameFor {role : Role} {names : List String} {is : List Identifier}
    (h : names.mapM (nameFor role) = .ok is) : is.map (·.text) = names := by
  induction names generalizing is with
  | nil =>
    rw [List.mapM_nil, pure_eq_ok] at h
    subst h
    rfl
  | cons name names ih =>
    rw [List.mapM_cons] at h
    obtain ⟨i, hi, h⟩ := bind_eq_ok.1 h
    obtain ⟨js, hjs, h⟩ := bind_eq_ok.1 h
    obtain rfl := pure_eq_ok.1 h
    rw [List.map_cons, text_of_nameFor hi, ih hjs]

namespace Query

variable {q q' : Query}

theorem of_ofTable {d : Dialect} {table : String} (h : ofTable d table = .ok q) :
    q.table.text = table := by
  obtain ⟨i, hi, h⟩ := bind_eq_ok.1 h
  obtain rfl := pure_eq_ok.1 h
  exact text_of_nameFor hi

theorem of_fields {columns : List String} (h : q.fields columns = .ok q') :
    q'.table = q.table ∧ q'.columns.map (·.text) = columns := by
  obtain ⟨is, his, h⟩ := bind_eq_ok.1 h
  obtain rfl := pure_eq_ok.1 h
  exact ⟨rfl, map_text_of_mapM_nameFor his⟩

theorem of_filter {column : String} {op : Operator} {value : Value}
    (h : q.filter column op value = .ok q') :
    q'.table = q.table ∧ q'.columns = q.columns ∧ q'.conditions ≠ [] := by
  obtain ⟨atom, -, h⟩ := bind_eq_ok.1 h
  obtain rfl := pure_eq_ok.1 h
  exact ⟨rfl, rfl, List.append_ne_nil_of_right_ne_nil _ (List.cons_ne_nil _ _)⟩

theorem of_sort {column : String} {direction : Direction} (h : q.sort column direction = .ok q') :
    q'.table = q.table ∧ q'.columns = q.columns ∧ q'.conditions = q.conditions := by
  obtain ⟨i, -, h⟩ := bind_eq_ok.1 h
  obtain rfl := pure_eq_ok.1 h
  exact ⟨rfl, rfl, rfl⟩

/-- A query for some columns reads them from its table. -/
theorem text_select {columns : List String} (h : q.columns.map (·.text) = columns)
    (hne : columns ≠ []) :
    q.select.text = "SELECT " ++ Text.join ", " columns ++ " FROM " ++ q.table.text ++
      q.whereText ++ q.orderText ++ q.pageText := by
  have hsome : q.columns.isEmpty = false := by
    rw [List.isEmpty_eq_false_iff]
    rintro hnil
    rw [hnil] at h
    exact hne h.symm
  rw [select, columnsText, hsome, h]
  rfl

theorem text_count (q : Query) :
    q.count.text = "SELECT COUNT(*) AS count FROM " ++ q.table.text ++ q.whereText := rfl

end Query

end Sql

namespace Branch

variable {s : Schema} {parent : Resource}

/-- **A statement of a branch reads its columns from its table.** -/
theorem selects_of_statement {b : Branch} {d : Sql.Dialect} {keys : List Value}
    {statement : Sql.Statement} (hne : b.columns ≠ [])
    (h : b.statement d keys = .ok statement) : b.Selects statement := by
  unfold Branch.statement at h
  obtain ⟨table, htable, h⟩ := bind_eq_ok.1 h
  obtain ⟨read, hread, h⟩ := bind_eq_ok.1 h
  obtain ⟨filtered, hfiltered, h⟩ := bind_eq_ok.1 h
  obtain ⟨sorted, hsorted, h⟩ := bind_eq_ok.1 h
  obtain rfl := pure_eq_ok.1 h
  -- Sort keys change neither the table nor the columns nor the conditions.
  have hsame : sorted.table = filtered.table ∧ sorted.columns = filtered.columns ∧
      sorted.conditions = filtered.conditions := by
    refine foldlM_induct (fun q => q.table = filtered.table ∧ q.columns = filtered.columns ∧
      q.conditions = filtered.conditions) (fun q column q' _ hq hsort => ?_) ⟨rfl, rfl, rfl⟩ hsorted
    obtain ⟨ht, hc, ha⟩ := Sql.Query.of_sort hsort
    exact ⟨ht.trans hq.1, hc.trans hq.2.1, ha.trans hq.2.2⟩
  obtain ⟨hsortedTable, hsortedColumns, hsortedConditions⟩ := hsame
  obtain ⟨hfilteredTable, hfilteredColumns, hconditions⟩ := Sql.Query.of_filter hfiltered
  obtain ⟨hreadTable, hcolumns⟩ := Sql.Query.of_fields hread
  have hname : sorted.table.text = b.level.table := by
    rw [hsortedTable, hfilteredTable, hreadTable, Sql.Query.of_ofTable htable]
  have hnames : sorted.columns.map (·.text) = b.columns := by
    rw [hsortedColumns, hfilteredColumns, hcolumns]
  have hparts : sorted.parts.isEmpty = false := by
    rw [List.isEmpty_eq_false_iff, Sql.Query.parts, hsortedConditions]
    exact List.append_ne_nil_of_left_ne_nil (mt List.map_eq_nil_iff.1 hconditions) _
  refine ⟨sorted.condition.text sorted.dialect ++ sorted.orderText ++ sorted.pageText, ?_⟩
  rw [Sql.Query.text_select hnames hne, Sql.Query.whereText, hparts, hname]
  simp only [Bool.false_eq_true, if_false, String.append_assoc]

/-! ## Reading keeps to the protocol -/

variable {σ ε : Type} {db : Database σ ε} {applied : Sql.Query}

/-- The rows of a permitted branch are asked for when rows above it have keys, and else not. -/
theorem keepsTo_rows (hs : s.Closed) (hp : parent.Fits s.resources) {b : Branch}
    (hb : b.Permitted s parent) (parents : List Row) (tasks : List Task) :
    Load.KeepsTo db applied (.visit b parents :: tasks) (b.rows db applied.dialect parents)
      fun rows => b.branches.map (Task.visit · rows) ++ tasks := by
  unfold rows
  split
  · next hkeys =>
    refine .quiet (.visit (ownerKeys_eq_nil_iff.1 hkeys)) ?_
    exact .pure [] fun rows => b.branches.map (Task.visit · rows) ++ tasks
  · next hkeys =>
    obtain ⟨statement, hstatement⟩ := exists_statement hs hp hb applied.dialect
      (ownerKeys b.level.relation.ownerColumn parents)
    have hasks : (Task.visit b parents).Asks applied statement := by
      have hselects : b.Selects statement :=
        selects_of_statement (List.ne_nil_of_mem hb.related_mem) hstatement
      refine .visit ?_ hstatement hselects
      exact Classical.not_not.1 fun hnone => hkeys (ownerKeys_eq_nil_iff.2 hnone)
    rw [hstatement]
    exact .ask hasks

/-- Branches side by side are visited one after the other, if each visits itself and those below it
only. -/
theorem keepsTo_readAll {branches : List Branch}
    (h : ∀ b ∈ branches, ∀ parents tasks, Load.KeepsTo db applied (.visit b parents :: tasks)
      (b.read db applied.dialect parents) fun _ => tasks) (parents : List Row)
    (tasks : List Task) :
    Load.KeepsTo db applied (branches.map (Task.visit · parents) ++ tasks)
      (readAll db applied.dialect branches parents) fun _ => tasks := by
  induction branches with
  | nil =>
    rw [readAll]
    exact .pure [] fun _ => tasks
  | cons b rest ih =>
    rw [readAll]
    refine .bind (h b List.mem_cons_self parents _) fun f => ?_
    refine .bind (ih fun c hc => h c (List.mem_cons_of_mem _ hc)) fun fs => ?_
    exact .pure (f :: fs) fun _ => tasks

/-- **Reading a permitted branch visits it and the branches below it**, and then the tasks that
follow are left. -/
theorem keepsTo_read (hs : s.Closed) {b : Branch} (hb : b.Permitted s parent)
    (hp : parent.Fits s.resources) (parents : List Row) (tasks : List Task) :
    Load.KeepsTo db applied (.visit b parents :: tasks) (b.read db applied.dialect parents)
      fun _ => tasks := by
  -- On the derivation, as for names: each level fits among the resources as a target of the schema.
  induction hb generalizing parents tasks with
  | @mk parent target level branches hl hbelow ih =>
    rw [read]
    refine .bind (keepsTo_rows hs hp (.mk hl hbelow) parents tasks) fun rows => ?_
    refine .bind (keepsTo_readAll (fun c hc => ih c hc (hs.fits _ _ hl.reads)) rows tasks) ?_
    exact fun nested => .pure (Found.mk level rows nested) fun _ => tasks

end Branch

/-! ## Plans -/

namespace Plan

theorem dialect_applyTo {p : Plan} {q applied : Sql.Query} (h : p.applyTo q = .ok applied) :
    applied.dialect = q.dialect := by
  refine foldlM_induct (·.dialect = q.dialect) (fun q₁ step q₂ _ hq hstep => ?_) rfl h
  obtain ⟨-, hdialect, -⟩ | ⟨_, c, -, -, rfl⟩ := Step.applyTo_cases hstep
  · exact hdialect.trans hq
  · exact hq

/-- A step never changes the table, and the columns only if it says which. -/
theorem Step.table_applyTo {step : Step} {q q' : Sql.Query} (h : step.applyTo q = .ok q') :
    q'.table = q.table ∧ (q'.columns = q.columns ∨
      ∃ columns, step = .select columns ∧ q'.columns.map (·.text) = columns) := by
  cases step with
  | select columns =>
    obtain ⟨htable, hcolumns⟩ := Sql.Query.of_fields h
    exact ⟨htable, .inr ⟨columns, rfl, hcolumns⟩⟩
  | filter predicate =>
    obtain ⟨c, -, h⟩ := bind_eq_ok.1 h
    obtain rfl := pure_eq_ok.1 h
    exact ⟨rfl, .inl rfl⟩
  | orderBy column direction =>
    obtain ⟨htable, hcolumns, -⟩ := Sql.Query.of_sort h
    exact ⟨htable, .inl hcolumns⟩
  | offset rows =>
    cases h
    exact ⟨rfl, .inl rfl⟩
  | limit rows =>
    cases h
    exact ⟨rfl, .inl rfl⟩

theorem select_mem_steps {p : Plan} {columns : List String} (h : .select columns ∈ p.steps) :
    columns = p.rootColumns := by
  simpa [steps] using h

/-- **The query of the root reads the columns of the plan, from the table that it was given.** -/
theorem columns_applyTo {p : Plan} {q applied : Sql.Query} (h : p.applyTo q = .ok applied) :
    applied.table = q.table ∧ applied.columns.map (·.text) = p.rootColumns := by
  -- The columns are chosen by the first step, and kept by those that follow.
  obtain ⟨chosen, hchosen, hrest⟩ := bind_eq_ok.1 h
  refine foldlM_induct (fun q' => q'.table = q.table ∧ q'.columns.map (·.text) = p.rootColumns)
    (fun q₁ step q₂ hstep hq happly => ?_) (Sql.Query.of_fields hchosen) hrest
  obtain ⟨htable, hcolumns⟩ := Step.table_applyTo happly
  refine ⟨htable.trans hq.1, ?_⟩
  obtain hkept | ⟨columns, rfl, hcolumns⟩ := hcolumns
  · rw [hkept, hq.2]
  · rw [hcolumns, select_mem_steps (List.mem_cons_of_mem _ hstep)]

/-- What a plan asks of the root: its rows, in the columns of the plan, and their number. Both are
taken from the table of the given query, under one condition with the same values. -/
structure AsksRoot (p : Plan) (query applied : Sql.Query) : Prop where
  select : applied.select.text = "SELECT " ++ Text.join ", " p.rootColumns ++ " FROM " ++
    query.table.text ++ applied.whereText ++ applied.orderText ++ applied.pageText
  count : applied.count.text =
    "SELECT COUNT(*) AS count FROM " ++ query.table.text ++ applied.whereText
  params : applied.count.params = applied.select.params

theorem asksRoot_applyTo {p : Plan} (hne : p.rootColumns ≠ []) {query applied : Sql.Query}
    (h : p.applyTo query = .ok applied) : p.AsksRoot query applied := by
  obtain ⟨htable, hcolumns⟩ := columns_applyTo h
  refine ⟨?_, ?_, rfl⟩
  · rw [Sql.Query.text_select hcolumns hne, htable]
  · rw [Sql.Query.text_count, htable]

/-- What there is to do in a run of a plan. -/
def tasks (p : Plan) : List Task :=
  .root p.branches :: if p.wantCount then [.count] else []

/-- No branch is visited for the count. -/
theorem flatMap_pending_count (p : Plan) :
    (if p.wantCount then [Task.count] else []).flatMap Task.pending = [] := by
  split
  · rfl
  · rfl

theorem flatMap_pending_tasks (p : Plan) :
    p.tasks.flatMap Task.pending = Branch.preorders p.branches := by
  rw [tasks, List.flatMap_cons, flatMap_pending_count, List.append_nil, Task.pending]

/-- How a run of a plan on a session ends, and the session after it, where `applied` is the plan's
query of the root. -/
inductive Runs {σ ε : Type} (db : Database σ ε) (p : Plan) (applied : Sql.Query)
    (session : Session σ) : Except (LoadFault ε) Envelope × Session σ → Prop
  /-- Every branch was visited, in pre-order, and every statement answered. There is a result,
  unless a count was asked for and the answer has none. -/
  | finishes {talk : List Exchange} {after : σ} {result : Except (LoadFault ε) Envelope} :
      Talk applied p.tasks (Branch.preorders p.branches) talk [] →
        db.Returns session.state talk after →
          ((∃ envelope, result = .ok envelope) ↔ (p.wantCount = true →
            ∃ rows, talk.getLast? = some (applied.count, rows) ∧ Counted rows)) →
            Runs db p applied session (result, ⟨after, session.asked ++ talk.map Prod.fst⟩)
  /-- A statement was not answered. None was asked after it, and the failure is that of the
  database. -/
  | fails {visited : List Branch} {talk : List Exchange} {state after : σ} {task : Task}
      {left : List Task} {statement : Sql.Statement} {failure : ε} :
      Talk applied p.tasks visited talk (task :: left) →
        visited ++ (task :: left).flatMap Task.pending = Branch.preorders p.branches →
          db.Returns session.state talk state → task.Asks applied statement →
            db.answer statement state = (.error failure, after) →
              Runs db p applied session (.error (.database failure),
                ⟨after, session.asked ++ talk.map Prod.fst ++ [statement]⟩)

variable {σ ε : Type} {db : Database σ ε} {p : Plan} {applied : Sql.Query}

/-- Ask for the rows of the root and of the branches. -/
def reading (db : Database σ ε) (p : Plan) (applied : Sql.Query) :
    Load σ ε (List Row × List Found) := do
  let roots ← Load.ask db applied.select
  let found ← Branch.readAll db applied.dialect p.branches roots
  return (roots, found)

theorem read_eq {query : Sql.Query} (h : p.applyTo query = .ok applied) :
    p.read db query = do
      let x ← p.reading db applied
      let count ← p.countOf db applied
      return ⟨x.1, x.2, count⟩ := by
  rw [read, reading, h, dialect_applyTo h]
  unfold countOf
  cases p.wantCount <;>
    simp only [Load.ofNames, Bool.false_eq_true, if_true, if_false, pure_bind, bind_assoc]

/-- Reading the rows leaves the count. -/
theorem keepsTo_reading (h : ∀ b ∈ p.branches, ∀ parents tasks,
    Load.KeepsTo db applied (.visit b parents :: tasks) (b.read db applied.dialect parents)
      fun _ => tasks) :
    Load.KeepsTo db applied p.tasks (p.reading db applied)
      fun _ => if p.wantCount then [.count] else [] := by
  unfold reading tasks
  refine .bind (.ask (.root p.branches)) fun roots => ?_
  refine .bind (Branch.keepsTo_readAll h roots _) fun found => ?_
  exact .pure (roots, found) fun _ => if p.wantCount then [.count] else []

/-- The count is asked for last, and decides whether there is a result. -/
theorem runs_count {session : Session σ} {talk : List Exchange} {middle : σ}
    (hwant : p.wantCount = true)
    (htalk : Talk applied p.tasks (Branch.preorders p.branches) talk [.count])
    (hreturns : db.Returns session.state talk middle) (f : UInt64 → Envelope) :
    Runs db p applied session ((Load.count db applied >>= fun n => pure (f n)).run
      ⟨middle, session.asked ++ talk.map Prod.fst⟩) := by
  rw [Load.run_bind]
  cases hanswer : db.answer applied.count middle with
  | mk result after =>
    cases result with
    | error failure =>
      rw [Load.run_count_of_error _ hanswer]
      exact .fails htalk (List.append_nil _) hreturns .count hanswer
    | ok rows =>
      obtain ⟨result, hrun, hresult⟩ :=
        Load.run_count_of_ok ⟨middle, session.asked ++ talk.map Prod.fst⟩ hanswer
      have htalk' : Talk applied p.tasks (Branch.preorders p.branches)
          (talk ++ [(applied.count, rows)]) [] := by
        have h : Talk applied p.tasks (Branch.preorders p.branches ++ (Task.count.visits ++ []))
            (talk ++ [(applied.count, rows)]) [] := htalk.trans (.ask .count (.stop []))
        rwa [Task.visits, List.append_nil, List.append_nil] at h
      have hreturns' : db.Returns session.state (talk ++ [(applied.count, rows)]) after :=
        hreturns.append (.cons hanswer (.nil after))
      have hcounted : Counted rows ↔ (p.wantCount = true → ∃ found,
          (talk ++ [(applied.count, rows)]).getLast? = some (applied.count, found) ∧
            Counted found) := by
        rw [List.getLast?_concat]
        refine ⟨fun h _ => ⟨rows, rfl, h⟩, fun h => ?_⟩
        obtain ⟨found, hfound, h⟩ := h hwant
        obtain ⟨-, rfl⟩ := Prod.mk.inj (Option.some.inj hfound)
        exact h
      have hasked : session.asked ++ talk.map Prod.fst ++ [applied.count] =
          session.asked ++ (talk ++ [(applied.count, rows)]).map Prod.fst := by
        rw [List.map_append, List.append_assoc]
        rfl
      rw [hrun, hasked]
      cases result with
      | error fault =>
        refine .finishes htalk' hreturns' (Iff.trans ?_ (hresult.trans hcounted))
        exact ⟨nofun, nofun⟩
      | ok n =>
        refine .finishes htalk' hreturns' (Iff.trans ?_ (hresult.trans hcounted))
        exact ⟨fun _ => ⟨n, rfl⟩, fun _ => ⟨f n, rfl⟩⟩

/-- **A plan runs in the order of its tasks**, if reading its branches does and no relation is named
like a column that joins rows of its level. -/
theorem runs_run (ha : Branch.Apart [] p.branches) {query : Sql.Query}
    (happly : p.applyTo query = .ok applied) (h : ∀ b ∈ p.branches, ∀ parents tasks,
      Load.KeepsTo db applied (.visit b parents :: tasks) (b.read db applied.dialect parents)
        fun _ => tasks) (session : Session σ) :
    Runs db p applied session ((p.run db query).run session) := by
  rw [run_eq ha, read_eq happly, map_bind, Load.run_bind]
  have hreading := keepsTo_reading h session
  generalize (p.reading db applied).run session = ran at hreading ⊢
  cases hreading with
  | fails htalk hreturns hasks hanswer =>
    refine .fails htalk ?_ hreturns hasks hanswer
    rw [← htalk.flatMap_pending, flatMap_pending_tasks]
  | @gives visited talk middle x htalk hreturns =>
    have hvisited : visited = Branch.preorders p.branches := by
      rw [← flatMap_pending_tasks, htalk.flatMap_pending, flatMap_pending_count, List.append_nil]
    subst hvisited
    simp only [countOf]
    cases hwant : p.wantCount with
    | false =>
      simp only [hwant, Bool.false_eq_true, if_false, pure_bind, map_pure] at htalk ⊢
      refine .finishes htalk hreturns ⟨fun _ hcount => ?_, fun _ => ⟨_, rfl⟩⟩
      rw [hwant] at hcount
      cases hcount
    | true =>
      simp only [hwant, if_true, map_bind, bind_map_left, map_pure] at htalk ⊢
      exact runs_count hwant htalk hreturns _

end Plan

namespace Planner

/-- Columns are read of the root, its id columns at least. -/
theorem rootColumns_ne_nil_of_compile {p : Planner} (hs : p.schema.Closed) {resource : String}
    {parameters : Parameters} {id : Option (List Value)} {plan : Plan}
    (h : p.compile resource parameters id = .ok plan) : plan.rootColumns ≠ [] := by
  obtain ⟨x, hx, -, hcolumns⟩ := rootColumns_of_compile h
  have hf : x.root.Fits p.schema.resources := hs.fits _ _ hx.root
  obtain ⟨column, hcolumn⟩ := List.exists_mem_of_ne_nil _ hf.idColumns_ne_nil
  rw [hcolumns]
  exact List.ne_nil_of_mem ((hx.serves hs).identified column hcolumn)

/-- **The protocol of a run.** A run of a compiled plan whose relations are named apart from the
columns that join rows of their level asks, as long as the database answers, for the rows of the
root, then for those of each branch that has rows with keys above it, in pre-order and by name among
those side by side, and last for the count, if it is wanted. The rows of the root and their number
are asked for from the table of the query, under one condition. A run fails as the database does,
and else gives a result unless the count is none. -/
theorem runs_of_compile {resources : List Resource} {p : Planner}
    (hs : Schema.build resources = .ok p.schema) {resource : String} {parameters : Parameters}
    {id : Option (List Value)} {plan : Plan} (h : p.compile resource parameters id = .ok plan)
    (ha : Branch.Apart [] plan.branches) {σ ε : Type} (db : Database σ ε) (query : Sql.Query)
    (session : Session σ) :
    Branch.Ordered plan.branches ∧ ∃ applied, plan.applyTo query = .ok applied ∧
      plan.AsksRoot query applied ∧
        plan.Runs db applied session ((plan.run db query).run session) := by
  obtain ⟨x, hx, hw, -, -, hbranches⟩ := passes_of_compile h
  have hclosed : p.schema.Closed := Schema.closed_of_build hs
  have hf : x.root.Fits p.schema.resources := hclosed.fits _ _ hx.root
  obtain ⟨applied, happly⟩ := Plan.exists_applyTo (hw.names_valid hf) query
  have hroot : plan.AsksRoot query applied :=
    Plan.asksRoot_applyTo (rootColumns_ne_nil_of_compile hclosed h) happly
  refine ⟨ordered_of_compile h, applied, happly, hroot, Plan.runs_run ha happly ?_ session⟩
  rw [hbranches]
  exact fun b hb => Branch.keepsTo_read hclosed (hx.permitted b hb) hf

/-- A request for everyone's reports with their bosses, and the count. -/
def reportsRequest : Parameters := .ofPairs [("$count", "true"), ("$expand", "reports/boss")]

/-- The relation to the reports, with that of a report to the boss. -/
def reportsBranch : Branch :=
  .mk
    { name := "reports"
      path := "reports"
      relation := ⟨.hasMany, "staff", "id", "boss_id"⟩
      table := "staff"
      primaryKey := ["id"]
      defaultColumns := ["id", "boss_id"]
      allowedColumns := ["name", "id"]
      selected := [] }
    [.mk
      { name := "boss"
        path := "reports/boss"
        relation := ⟨.belongsTo, "staff", "boss_id", "id"⟩
        table := "staff"
        primaryKey := ["id"]
        defaultColumns := ["id", "boss_id"]
        allowedColumns := ["name", "id"]
        selected := [] } []]

/-- The plan of the request. -/
def reportsPlan : Plan where
  resource := "staff"
  table := "staff"
  shape := .collection
  predicate := none
  sort := []
  offset := none
  limit := some ({} : Limits).defaultTop
  rootColumns := ["id", "boss_id", "name"]
  expansion := some ⟨[reportsBranch]⟩
  selection := none
  wantCount := true

theorem compile_reports :
    compile ⟨staffSchema, {}⟩ "staff" reportsRequest none = .ok reportsPlan := by
  let x : Results :=
    { root := staff
      options :=
        { filter := none, sort := [], skip := none, top := ({} : Limits).defaultTop,
          expand := ["reports/boss"], select := [], count := true }
      filter := none
      bare := ⟨[reportsBranch]⟩
      selection := .empty
      expansion := ⟨[reportsBranch]⟩ }
  have hx : Passes ⟨staffSchema, {}⟩ "staff" reportsRequest x :=
    ⟨by rfl, by rfl, by rfl, by rfl, by rfl, by rfl⟩
  exact collection_eq_ok.2 ⟨x, hx, by rfl⟩

/-- A report without a boss leads to no statement, and the count is a text. -/
theorem runs_of_compile_reports : Schema.build [staff] = .ok staffSchema ∧
    compile ⟨staffSchema, {}⟩ "staff" reportsRequest none = .ok reportsPlan ∧
      Branch.Apart [] reportsPlan.branches ∧
        let session : Session (List (List Row)) := ⟨[
          [[("boss_id", .null), ("id", .int 1)], [("boss_id", .int 1), ("id", .null)]],
          [[("boss_id", .null), ("id", .int 4)]],
          [[("count", .text " +2 ")]]], []⟩
        Branch.Ordered reportsPlan.branches ∧ ∃ applied,
          reportsPlan.applyTo staffQuery = .ok applied ∧
            reportsPlan.AsksRoot staffQuery applied ∧
              reportsPlan.Runs Plan.prepared applied session
                ((reportsPlan.run Plan.prepared staffQuery).run session) := by
  have hs : Schema.build [staff] = .ok staffSchema := by rfl
  have ha : Branch.Apart [] reportsPlan.branches :=
    .mk (by decide) (List.forall_mem_singleton.2 <|
      .mk (by decide) (List.forall_mem_singleton.2 (.mk nofun nofun)))
  exact ⟨hs, compile_reports, ha, runs_of_compile hs compile_reports ha _ _ _⟩

end Planner

end RequestQuery
