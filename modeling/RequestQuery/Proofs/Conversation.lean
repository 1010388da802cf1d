import RequestQuery.Proofs.JoinedRows
import RequestQuery.Proofs.TreeSize

/-!
# Conversations with a database

What a run of a plan asks, and in which order. The protocol is that of a list of tasks: the first
one asks its statement, or nothing, and the rows that are returned for it open further tasks, which
come before those that are left. So the branches of an expansion are visited in pre-order. A load
keeps to the protocol when what it asks is what its tasks ask, up to the first failure of the
database; loads are put together as the rule of sequences says (`Load.KeepsTo.bind`).

* `Task`, `Task.Asks`, `Task.Silent`, `Task.next`: the tasks of a run, what each asks, and what it
  opens; `Talk`: the exchanges that tasks lead to.
* `Talk.flatMap_pending`: branches are visited in pre-order.
* `Database.Returns`: the exchanges are what the database answers.
* `Load.Runs`, `Load.KeepsTo`: a load works off tasks.
-/

namespace RequestQuery

/-! ## Tasks -/

/-- Something that is left to do in a run of a plan. -/
inductive Task where
  /-- Read the rows of the root, from which the branches are expanded. -/
  | root (branches : List Branch)
  /-- Read the rows of a branch for the rows above it. -/
  | visit (b : Branch) (parents : List Row)
  /-- Count the rows. -/
  | count

/-- A statement that was asked, and the rows that were returned. -/
abbrev Exchange : Type := Sql.Statement × List Row

/-- The statement reads the columns of a branch from its table. -/
def Branch.Selects (b : Branch) (statement : Sql.Statement) : Prop :=
  ∃ condition : String, statement.text = "SELECT " ++ Text.join ", " b.columns ++
    " FROM " ++ b.level.table ++ " WHERE " ++ condition

namespace Task

/-- The tasks that the rows returned for a task open. -/
def next : Task → List Row → List Task
  | root branches, rows => branches.map (visit · rows)
  | visit b _, rows => b.branches.map (visit · rows)
  | count, _ => []

/-- The branch that a task visits. -/
def visits : Task → List Branch
  | visit b _ => [b]
  | root _ | count => []

/-- The branches that a task and those that it opens visit. -/
def pending : Task → List Branch
  | root branches => Branch.preorders branches
  | visit b _ => b.preorder
  | count => []

/-- Some row holds a string, a number or a boolean in a column. -/
def HasKey (column : String) (rows : List Row) : Prop :=
  ∃ row ∈ rows, ∃ key, scalarAt column row = some key

/-- The statement that a task asks, where `applied` is the query of the root. A branch is looked up
when some row above it has a key. -/
inductive Asks (applied : Sql.Query) : Task → Sql.Statement → Prop
  | root (branches : List Branch) : Asks applied (.root branches) applied.select
  | visit {b : Branch} {parents : List Row} {statement : Sql.Statement}
      (key : HasKey b.level.relation.ownerColumn parents)
      (written : b.statement applied.dialect (ownerKeys b.level.relation.ownerColumn parents) =
        .ok statement)
      (selects : b.Selects statement) : Asks applied (.visit b parents) statement
  | count : Asks applied .count applied.count

/-- A task that asks nothing: no row above the branch has a key. -/
inductive Silent : Task → Prop
  | visit {b : Branch} {parents : List Row}
      (noKey : ¬ HasKey b.level.relation.ownerColumn parents) : Silent (.visit b parents)

end Task

/-- `Talk applied tasks visited talk left`: working off `tasks` from the first on visits the
branches `visited` and makes the exchanges `talk`, both in this order, when `left` is left to do. -/
inductive Talk (applied : Sql.Query) :
    List Task → List Branch → List Exchange → List Task → Prop
  | stop (tasks : List Task) : Talk applied tasks [] [] tasks
  | quiet {task : Task} {tasks left : List Task} {visited : List Branch} {talk : List Exchange} :
      task.Silent → Talk applied (task.next [] ++ tasks) visited talk left →
        Talk applied (task :: tasks) (task.visits ++ visited) talk left
  | ask {task : Task} {tasks left : List Task} {visited : List Branch} {talk : List Exchange}
      {statement : Sql.Statement} {rows : List Row} :
      task.Asks applied statement → Talk applied (task.next rows ++ tasks) visited talk left →
        Talk applied (task :: tasks) (task.visits ++ visited) ((statement, rows) :: talk) left

namespace Talk

variable {applied : Sql.Query} {tasks middle left : List Task} {visited visited' : List Branch}
  {talk talk' : List Exchange}

theorem trans (h : Talk applied tasks visited talk middle)
    (h' : Talk applied middle visited' talk' left) :
    Talk applied tasks (visited ++ visited') (talk ++ talk') left := by
  induction h with
  | stop tasks => exact h'
  | quiet hsilent _ ih =>
    rw [List.append_assoc]
    exact .quiet hsilent (ih h')
  | ask hasks _ ih =>
    rw [List.append_assoc, List.cons_append]
    exact .ask hasks (ih h')

theorem flatMap_pending_visit (branches : List Branch) (rows : List Row) :
    (branches.map (Task.visit · rows)).flatMap Task.pending = Branch.preorders branches := by
  induction branches with
  | nil => rfl
  | cons b rest ih => rw [List.map_cons, List.flatMap_cons, ih, Branch.preorders, Task.pending]

/-- What a task visits, and then what it opens, is what it has pending. -/
theorem pending_eq (task : Task) (rows : List Row) :
    task.pending = task.visits ++ (task.next rows).flatMap Task.pending := by
  cases task with
  | root branches => exact (flatMap_pending_visit branches rows).symm
  | visit b parents =>
    cases b with
    | mk level branches =>
      rw [Task.next, flatMap_pending_visit, Task.pending, Branch.preorder]
      rfl
  | count => rfl

/-- **Branches are visited in pre-order**: those that were visited, then those that are pending. -/
theorem flatMap_pending (h : Talk applied tasks visited talk left) :
    tasks.flatMap Task.pending = visited ++ left.flatMap Task.pending := by
  induction h with
  | stop tasks => rfl
  | quiet _ _ ih =>
    rw [List.flatMap_append] at ih
    rw [List.flatMap_cons, pending_eq _ [], List.append_assoc, ih, List.append_assoc]
  | @ask _ _ _ _ _ _ rows _ _ ih =>
    rw [List.flatMap_append] at ih
    rw [List.flatMap_cons, pending_eq _ rows, List.append_assoc, ih, List.append_assoc]

end Talk

/-! ## Answers -/

variable {σ ε α β : Type}

/-- Asked the statements of the exchanges one after the other, the database returns their rows, and
comes from one state to another. -/
inductive Database.Returns (db : Database σ ε) : σ → List Exchange → σ → Prop
  | nil (s : σ) : Returns db s [] s
  | cons {s middle after : σ} {statement : Sql.Statement} {rows : List Row}
      {talk : List Exchange} : db.answer statement s = (.ok rows, middle) →
        Returns db middle talk after → Returns db s ((statement, rows) :: talk) after

theorem Database.Returns.append {db : Database σ ε} {s middle after : σ}
    {talk talk' : List Exchange} (h : db.Returns s talk middle)
    (h' : db.Returns middle talk' after) : db.Returns s (talk ++ talk') after := by
  induction h with
  | nil s => exact h'
  | cons hrows _ ih => exact .cons hrows (ih h')

/-! ## Loads that keep to the protocol -/

namespace Load

/-- How a load runs that works off `tasks` until `next a` is left when it gives `a`: it makes the
exchanges of the tasks, and gives a result, or stops at the first statement that the database does
not answer and fails as the database did. -/
inductive Runs (db : Database σ ε) (applied : Sql.Query) (tasks : List Task) (next : α → List Task)
    (session : Session σ) : Except (LoadFault ε) α × Session σ → Prop
  | gives {visited : List Branch} {talk : List Exchange} {after : σ} (a : α) :
      Talk applied tasks visited talk (next a) → db.Returns session.state talk after →
        Runs db applied tasks next session
          (.ok a, ⟨after, session.asked ++ talk.map Prod.fst⟩)
  | fails {visited : List Branch} {talk : List Exchange} {state after : σ} {task : Task}
      {left : List Task} {statement : Sql.Statement} {failure : ε} :
      Talk applied tasks visited talk (task :: left) → db.Returns session.state talk state →
        task.Asks applied statement → db.answer statement state = (.error failure, after) →
          Runs db applied tasks next session (.error (.database failure),
            ⟨after, session.asked ++ talk.map Prod.fst ++ [statement]⟩)

/-- A load works off tasks, on every session. -/
def KeepsTo (db : Database σ ε) (applied : Sql.Query) (tasks : List Task) (m : Load σ ε α)
    (next : α → List Task) : Prop :=
  ∀ session, Runs db applied tasks next session (m.run session)

namespace KeepsTo

variable {db : Database σ ε} {applied : Sql.Query} {tasks : List Task}

theorem pure (a : α) (next : α → List Task) :
    KeepsTo db applied (next a) (Pure.pure a : Load σ ε α) next := by
  intro session
  have h : Runs db applied (next a) next session (.ok a, ⟨session.state, session.asked ++ []⟩) :=
    .gives a (.stop (next a)) (.nil session.state)
  rwa [List.append_nil] at h

/-- A statement is asked for the first task. -/
theorem ask {task : Task} {statement : Sql.Statement} (h : task.Asks applied statement) :
    KeepsTo db applied (task :: tasks) (Load.ask db statement)
      fun rows => task.next rows ++ tasks := by
  intro session
  rw [run_ask]
  cases hanswer : db.answer statement session.state with
  | mk result after =>
    cases result with
    | ok rows => exact .gives rows (.ask h (.stop _)) (.cons hanswer (.nil _))
    | error failure =>
      have hfails : Runs db applied (task :: tasks) (fun rows => task.next rows ++ tasks) session
          (.error (.database failure), ⟨after, session.asked ++ [] ++ [statement]⟩) :=
        .fails (.stop (task :: tasks)) (.nil session.state) h hanswer
      rwa [List.append_nil] at hfails

/-- A first task that asks nothing is passed over. -/
theorem quiet {task : Task} {m : Load σ ε α} {next : α → List Task} (h : task.Silent)
    (hm : KeepsTo db applied (task.next [] ++ tasks) m next) :
    KeepsTo db applied (task :: tasks) m next := by
  intro session
  have hrun := hm session
  generalize m.run session = ran at hrun ⊢
  cases hrun with
  | gives a htalk hreturns => exact .gives a (.quiet h htalk) hreturns
  | fails htalk hreturns hasks hanswer => exact .fails (.quiet h htalk) hreturns hasks hanswer

/-- **What one load leaves to do, the next one works off.** -/
theorem bind {m : Load σ ε α} {f : α → Load σ ε β} {next : α → List Task} {last : β → List Task}
    (hm : KeepsTo db applied tasks m next) (hf : ∀ a, KeepsTo db applied (next a) (f a) last) :
    KeepsTo db applied tasks (m >>= f) last := by
  intro session
  have hfirst := hm session
  rw [run_bind]
  generalize m.run session = ran at hfirst ⊢
  cases hfirst with
  | fails htalk hreturns hasks hanswer => exact .fails htalk hreturns hasks hanswer
  | @gives visited talk middle a htalk hreturns =>
    have hrest := hf a ⟨middle, session.asked ++ talk.map Prod.fst⟩
    show Runs db applied tasks last session ((f a).run _)
    generalize (f a).run _ = ran at hrest ⊢
    cases hrest with
    | gives b htalk' hreturns' =>
      rw [List.append_assoc, ← List.map_append]
      exact .gives b (htalk.trans htalk') (hreturns.append hreturns')
    | fails htalk' hreturns' hasks hanswer =>
      rw [List.append_assoc session.asked, ← List.map_append]
      exact .fails (htalk.trans htalk') (hreturns.append hreturns') hasks hanswer

end KeepsTo

end Load

end RequestQuery
