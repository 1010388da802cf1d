import Mathlib.Data.List.Forall2
import RequestQuery.Proofs.JoinedRows

/-!
# Columns that loading keeps

What is attached to a row is put under the name of its relation, whatever stands there, and the
count of a single row is put among its columns. Everything else that a database returned for a row
stays as it was, at every level and in whatever order relations are attached, even where a relation
is named like a column by which rows are joined, so that the rows of another relation are no longer
those that join.

* `Branch.trace`, `Plan.trace`: a run that notes what the database returned; the run is what it
  gives besides (`Plan.run_eq_trace`).
* `Found.Attached`: what stands under the name of a relation are returned rows, completed.
* `Found.Stands`: the rows at every level of a result.
* `Planner.kept_of_compile`: the columns that every row of a result keeps.
-/

namespace RequestQuery

/-! ## Runs with what was returned -/

namespace Branch

variable {σ ε : Type} (db : Database σ ε) (d : Sql.Dialect)

mutual

/-- Load a branch, noting the rows that were returned. -/
def trace : Branch → List Row → Load σ ε (Found × List Row)
  | .mk level branches, parents => do
    let rows ← (Branch.mk level branches).rows db d parents
    let below ← traceAll branches rows
    return (.mk level rows below.1, attach level below.2 parents)

/-- Load branches one after the other, noting the rows that were returned. -/
def traceAll : List Branch → List Row → Load σ ε (List Found × List Row)
  | [], parents => pure ([], parents)
  | b :: rest, parents => do
    let first ← b.trace parents
    let more ← traceAll rest first.2
    return (first.1 :: more.1, more.2)

end

mutual

/-- Noting what was returned changes nothing. -/
theorem load_eq_trace : (b : Branch) → (parents : List Row) →
    b.load db d parents = Prod.snd <$> b.trace db d parents
  | .mk level branches, parents => by
    rw [load, trace, map_bind]
    refine bind_congr fun rows => ?_
    rw [loadAll_eq_trace branches rows, bind_map_left, map_bind]
    exact bind_congr fun below => (map_pure ..).symm

theorem loadAll_eq_trace : (branches : List Branch) → (parents : List Row) →
    loadAll db d branches parents = Prod.snd <$> traceAll db d branches parents
  | [], parents => by
    rw [loadAll, traceAll, map_pure]
  | b :: rest, parents => by
    rw [loadAll, traceAll, load_eq_trace b parents, bind_map_left, map_bind]
    refine bind_congr fun first => ?_
    rw [loadAll_eq_trace rest first.2, map_bind]
    exact (bind_pure_comp ..).symm

end

end Branch

/-- The result that rows and a count make: for a page all the rows, for a single row the first. -/
def Envelope.of : Plan.Shape → List Row → Option UInt64 → Envelope
  | .collection, rows, count => .collection rows count
  | .entity, rows, count => .ofRow rows.head? count

namespace Plan

variable {σ ε : Type} (db : Database σ ε) (p : Plan) (query : Sql.Query)

/-- Ask for the number of rows of a query, if the plan wants it. -/
def countOf (applied : Sql.Query) : Load σ ε (Option UInt64) :=
  if p.wantCount then some <$> Load.count db applied else pure none

/-- A plan gets a count when it wants one. -/
theorem gives_countOf (applied : Sql.Query) :
    (p.countOf db applied).Gives fun count => count.isSome = p.wantCount := by
  unfold countOf
  split
  · next hwant =>
    rw [map_eq_pure_bind]
    exact .bind (.any _) fun n _ => .pure hwant.symm
  · next hwant => exact .pure (Bool.eq_false_iff.2 hwant).symm

/-- Run a plan, noting the rows that were returned. -/
def trace : Load σ ε (Answers × Envelope) := do
  let applied ← Load.ofNames (p.applyTo query)
  let roots ← Load.ask db applied.select
  let below ← Branch.traceAll db query.dialect p.branches roots
  let count ← p.countOf db applied
  return (⟨roots, below.1, count⟩, .of p.shape below.2 count)

/-- A run is what a noted run gives besides its notes. -/
theorem run_eq_trace : p.run db query = Prod.snd <$> p.trace db query := by
  rw [run, trace, map_bind]
  refine bind_congr fun applied => ?_
  rw [map_bind]
  refine bind_congr fun roots => ?_
  have hload := Branch.loadAll_eq_trace db query.dialect p.branches roots
  rw [← branches, hload, bind_map_left, map_bind]
  refine bind_congr fun below => ?_
  unfold countOf
  cases p.shape <;> cases p.wantCount <;>
    simp only [Envelope.of, Bool.false_eq_true, if_true, if_false, map_bind, map_pure]

end Plan

/-! ## Rows at every level -/

/-- The rows in what is attached to a row: those of an array, or the single one. -/
def attachedRows : Json → List Row
  | .array items => items.filterMap fun
    | .object row => some row
    | _ => none
  | .object row => [row]
  | _ => []

/-- Only the rows that it is made for are in an attachment. -/
theorem mem_of_mem_attachedRows {kind : Relation.Kind} {rows : List Row} {row : Row}
    (h : row ∈ attachedRows (attachment kind rows)) : row ∈ rows := by
  unfold attachment at h
  split at h
  · simp only [attachedRows, List.filterMap_map, List.mem_filterMap] at h
    obtain ⟨other, hother, heq⟩ := h
    obtain rfl := Option.some.inj heq
    exact hother
  · cases rows with
    | nil => cases h
    | cons first rest =>
      obtain rfl := List.mem_singleton.1 h
      exact List.mem_cons_self

/-- A row holds what another one does, except under the given names. -/
def Row.KeepsBut (names : List String) (row out : Row) : Prop :=
  ∀ key, key ∉ names → Entries.get? key out = Entries.get? key row

namespace Found

/-- Rows of a result that are returned rows, each with what was found below attached under the names
of the relations. -/
inductive Complete : List Found → List Row → List Row → Prop
  | mk {fs : List Found} {rows outs : List Row}
      (keeps : ∀ out ∈ outs, ∃ row ∈ rows, Row.KeepsBut (fs.map name) row out)
      (below : ∀ f ∈ fs, ∀ out ∈ outs, ∀ value, Entries.get? f.name out = some value →
        Complete f.nested f.rows (attachedRows value)) : Complete fs rows outs

/-- What stands under the name of a relation in a row are rows that were returned for it. -/
def Attached (f : Found) (out : Row) : Prop :=
  ∀ value, Entries.get? f.name out = some value → Complete f.nested f.rows (attachedRows value)

variable {fs : List Found} {f : Found} {rows outs : List Row}

theorem Complete.of_nil (fs : List Found) (rows : List Row) : Complete fs rows [] :=
  .mk nofun fun _ _ => nofun

/-- A part of the rows is complete when all are. -/
theorem Complete.subset (h : Complete fs rows outs) {part : List Row}
    (hpart : ∀ out ∈ part, out ∈ outs) : Complete fs rows part := by
  cases h with
  | mk keeps below =>
    exact .mk (fun out hout => keeps out (hpart out hout)) fun f hf out hout =>
      below f hf out (hpart out hout)

/-- `Stands fs outs f out`: `out` is one of the rows that stand in `outs` at the level of `f`, one
of the relations found in `fs` or below them. -/
inductive Stands : List Found → List Row → Found → Row → Prop
  | top {fs : List Found} {outs : List Row} {f : Found} {above out : Row} {value : Json} :
      f ∈ fs → above ∈ outs → Entries.get? f.name above = some value → out ∈ attachedRows value →
        Stands fs outs f out
  | inside {fs : List Found} {outs : List Row} {f g : Found} {above out : Row} {value : Json} :
      f ∈ fs → above ∈ outs → Entries.get? f.name above = some value →
        Stands f.nested (attachedRows value) g out → Stands fs outs g out

/-- **A row at any level is one that was returned for it**, apart from what is attached. -/
theorem Stands.keeps {out : Row} (hs : Stands fs outs f out)
    (h : ∀ g ∈ fs, ∀ above ∈ outs, g.Attached above) :
    ∃ row ∈ f.rows, Row.KeepsBut (f.nested.map name) row out := by
  induction hs with
  | top hf habove hvalue hout =>
    cases h _ hf _ habove _ hvalue with
    | mk keeps _ => exact keeps _ hout
  | inside hf habove hvalue _ ih =>
    cases h _ hf _ habove _ hvalue with
    | mk _ inside => exact ih fun g hg row hrow => inside g hg row hrow

end Found

/-! ## What loading keeps -/

namespace Branch

/-- A change of rows that attaches to each what was found, and changes nothing else. -/
structure Attaches (fs : List Found) (g : Row → Row) : Prop where
  keeps : ∀ row, Row.KeepsBut (fs.map Found.name) row (g row)
  attached : ∀ f ∈ fs, ∀ row, f.Attached (g row)

/-- Rows changed by what attaches are complete. -/
theorem Attaches.complete {fs : List Found} {g : Row → Row} (h : Attaches fs g) (rows : List Row) :
    Found.Complete fs rows (rows.map g) := by
  refine .mk ?_ ?_
  · intro out hout
    obtain ⟨row, hrow, rfl⟩ := List.mem_map.1 hout
    exact ⟨row, hrow, h.keeps row⟩
  · intro f hf out hout
    obtain ⟨row, -, rfl⟩ := List.mem_map.1 hout
    exact h.attached f hf row

/-- **One step attaches**: putting complete rows under a name, whichever of them match. -/
theorem attaches_attach {level : Level} {rows complete : List Row} {nested : List Found}
    (h : Found.Complete nested rows complete) : ∃ g, Attaches [.mk level rows nested] g ∧
      ∀ parents, attach level complete parents = parents.map g := by
  refine ⟨attachTo level (.ofRows level.relation.relatedColumn complete), ?_, fun parents => rfl⟩
  refine ⟨fun parent key hkey => ?_, fun f hf parent value hvalue => ?_⟩
  · exact Entries.get?_put_of_ne (fun he => hkey (List.mem_singleton.2 he)) _ _
  · obtain rfl := List.mem_singleton.1 hf
    obtain rfl := Option.some.inj ((Entries.get?_put_self level.name _ parent).symm.trans hvalue)
    refine h.subset fun out hout => ?_
    have hmatching := mem_of_mem_attachedRows hout
    rw [matching_eq] at hmatching
    exact List.mem_of_mem_filter hmatching

/-- What attaches one relation and then others attaches all, when their names differ. -/
theorem Attaches.comp {f : Found} {fs : List Found} {g g' : Row → Row} (h : Attaches [f] g)
    (h' : Attaches fs g') (hname : f.name ∉ fs.map Found.name) : Attaches (f :: fs) (g' ∘ g) := by
  refine ⟨fun row key hkey => ?_, fun other hother row => ?_⟩
  · rw [List.map_cons, List.mem_cons, not_or] at hkey
    exact (h'.keeps (g row) key hkey.2).trans
      (h.keeps row key fun hmem => hkey.1 (List.mem_singleton.1 hmem))
  · rcases List.mem_cons.1 hother with rfl | hother
    · intro value hvalue
      rw [Function.comp, h'.keeps (g row) _ hname] at hvalue
      exact h.attached _ (List.mem_singleton_self _) row value hvalue
    · exact h'.attached other hother (g row)

variable {σ ε : Type} (db : Database σ ε) (d : Sql.Dialect)

mutual

/-- **Loading a branch attaches what was found for it, and changes nothing else.** -/
theorem gives_trace : (b : Branch) → Ordered b.branches → (parents : List Row) →
    (b.trace db d parents).Gives fun x =>
      x.1.branch = b ∧ ∃ g, Attaches [x.1] g ∧ x.2 = parents.map g
  | .mk level branches, ho, parents => by
    rw [trace]
    refine .bind (.any _) fun rows _ => ?_
    refine .bind (gives_traceAll branches ho rows) fun below hbelow => .pure ?_
    obtain ⟨hbranches, g, hg, hrows⟩ := hbelow
    have hcomplete : Found.Complete below.1 rows below.2 := hrows ▸ hg.complete rows
    obtain ⟨g', hg', hattach⟩ : ∃ g', Attaches [.mk level rows below.1] g' ∧
        ∀ parents, attach level below.2 parents = parents.map g' := attaches_attach hcomplete
    refine ⟨by rw [Found.branch, hbranches], g', hg', hattach parents⟩

/-- So does loading branches side by side, one after the other. -/
theorem gives_traceAll : (branches : List Branch) → Ordered branches → (parents : List Row) →
    (traceAll db d branches parents).Gives fun x =>
      Found.branches x.1 = branches ∧ ∃ g, Attaches x.1 g ∧ x.2 = parents.map g
  | [], ho, parents => by
    rw [traceAll]
    exact .pure ⟨rfl, id, ⟨fun _ _ _ => rfl, nofun⟩, (List.map_id _).symm⟩
  | b :: rest, ho, parents => by
    have hrest : Ordered rest := .mk (List.pairwise_cons.1 ho.pairwise).2
      fun c hc => ho.inside (List.mem_cons_of_mem _ hc)
    have hname : b.name ∉ rest.map name := (List.nodup_cons.1 ho.nodup).1
    rw [traceAll]
    refine .bind (gives_trace b (ho.inside List.mem_cons_self) parents) fun first hfirst => ?_
    obtain ⟨hb, g, hg, hparents⟩ := hfirst
    refine .bind (gives_traceAll rest hrest first.2) fun more hmore => .pure ?_
    obtain ⟨hbranches, g', hg', hall⟩ := hmore
    refine ⟨by rw [Found.branches, hb, hbranches], g' ∘ g, hg.comp hg' ?_, ?_⟩
    · rwa [← Found.name_branch, hb, ← Found.map_name_branches, hbranches]
    · rw [hall, hparents, List.map_map]

end

end Branch

/-! ## Results -/

/-- The rows of the root that a result is made of: for a page all of them, for a single row the
first. -/
def Plan.Shape.roots : Plan.Shape → List Row → List Row
  | .collection, rows => rows
  | .entity, rows => rows.take 1

/-- The names under which something else is put into a row of the root: those of the expanded
relations and, where the count is put into a single row, `count`. -/
def Plan.replaced (p : Plan) : List String :=
  p.branches.map Branch.name ++ if p.isEntity ∧ p.wantCount then ["count"] else []

theorem Row.KeepsBut.mono {names more : List String} {row out : Row}
    (h : Row.KeepsBut names row out) (hnames : ∀ name ∈ names, name ∈ more) :
    Row.KeepsBut more row out :=
  fun key hkey => h key fun hmem => hkey (hnames key hmem)

/-- The count is put among the columns of a single row. -/
theorem Row.KeepsBut.put {names : List String} {row out : Row} (h : Row.KeepsBut names row out)
    (name : String) (value : Json) :
    Row.KeepsBut (names ++ [name]) row (Entries.put name value out) := by
  intro key hkey
  rw [List.mem_append, not_or] at hkey
  rw [Entries.get?_put_of_ne fun he => hkey.2 (List.mem_singleton.2 he)]
  exact h key hkey.1

/-- The count does not stand for rows. -/
theorem Found.Attached.put_count {f : Found} {out : Row} (h : f.Attached out) (n : UInt64) :
    f.Attached (Entries.put "count" (Envelope.countJson n) out) := by
  intro value hvalue
  by_cases hname : f.name = "count"
  · rw [hname, Entries.get?_put_self] at hvalue
    obtain rfl := Option.some.inj hvalue
    exact .of_nil _ _
  · rw [Entries.get?_put_of_ne hname] at hvalue
    exact h value hvalue

namespace Plan

variable {p : Plan} {fs : List Found} {g : Row → Row}

/-- The rows of a result are the rows that it is made of, with what was found attached and perhaps
the count put among the columns. -/
theorem keeps_rows (hg : Branch.Attaches fs g) (hfs : Found.branches fs = p.branches)
    {count : Option UInt64} (hcount : count.isSome = p.wantCount) (roots : List Row) :
    List.Forall₂ (Row.KeepsBut p.replaced) (p.shape.roots roots)
      (Envelope.of p.shape (roots.map g) count).rows := by
  have hnames : fs.map Found.name = p.branches.map Branch.name := by
    rw [← Found.map_name_branches, hfs]
  have hkeeps : ∀ row, Row.KeepsBut (p.branches.map Branch.name) row (g row) :=
    hnames ▸ hg.keeps
  have hreplaced : ∀ name ∈ p.branches.map Branch.name, name ∈ p.replaced :=
    fun name hname => List.mem_append_left _ hname
  cases hshape : p.shape with
  | collection =>
    exact List.forall₂_map_right_iff.2 (List.forall₂_same.2 fun row _ =>
      (hkeeps row).mono hreplaced)
  | entity =>
    match roots, count with
    | [], _ => exact .nil
    | row :: _, none => exact .cons ((hkeeps row).mono hreplaced) .nil
    | row :: _, some n =>
      have hall : p.replaced = p.branches.map Branch.name ++ ["count"] := by
        rw [replaced, if_pos ⟨by rw [isEntity, hshape]; rfl, hcount.symm⟩]
      rw [hall]
      exact .cons ((hkeeps row).put "count" _) .nil

/-- What stands under the names of the relations in a row of a result are returned rows. -/
theorem attached_rows (hg : Branch.Attaches fs g) (shape : Shape) (roots : List Row)
    (count : Option UInt64) {f : Found} (hf : f ∈ fs) :
    ∀ out ∈ (Envelope.of shape (roots.map g) count).rows, f.Attached out := by
  intro out hout
  cases shape with
  | collection =>
    obtain ⟨row, -, rfl⟩ := List.mem_map.1 hout
    exact hg.attached f hf row
  | entity =>
    match roots, count with
    | [], _ => cases hout
    | row :: _, none =>
      obtain rfl := List.mem_singleton.1 hout
      exact hg.attached f hf row
    | row :: _, some n =>
      obtain rfl := List.mem_singleton.1 hout
      exact (hg.attached f hf row).put_count n

variable {σ ε : Type} (db : Database σ ε) (query : Sql.Query)

/-- **Every row of a result keeps what the database returned for it**, at every level, except under
the names under which something else is put. -/
theorem gives_trace (ho : Branch.Ordered p.branches) : (p.trace db query).Gives fun x =>
    Found.branches x.1.found = p.branches ∧
      List.Forall₂ (Row.KeepsBut p.replaced) (p.shape.roots x.1.roots) x.2.rows ∧
        ∀ f out, Found.Stands x.1.found x.2.rows f out →
          ∃ row ∈ f.rows, Row.KeepsBut (f.nested.map Found.name) row out := by
  rw [trace]
  refine .bind (.any _) fun applied _ => .bind (.any _) fun roots _ => ?_
  refine .bind (Branch.gives_traceAll db query.dialect p.branches ho roots) fun below hbelow => ?_
  obtain ⟨hfs, g, hg, hrows⟩ := hbelow
  refine .bind (p.gives_countOf db applied) fun count hcount => .pure ?_
  rw [hrows]
  refine ⟨hfs, keeps_rows hg hfs hcount roots, fun f out hstands => ?_⟩
  exact hstands.keeps fun f hf => attached_rows hg p.shape roots count hf

end Plan

namespace Planner

/-- **Attaching expansions and the count destroys no other column.** A run of a compiled plan makes
its result of the rows that the database returned: each row of the root that is in the result, and
each row that stands at any level below, is one that was returned there, with every column as it was
returned, except those named like a relation expanded at that level, and in a single row with the
count the column `count`. -/
theorem kept_of_compile {p : Planner} {resource : String} {parameters : Parameters}
    {id : Option (List Value)} {plan : Plan} (h : p.compile resource parameters id = .ok plan)
    {σ ε : Type} (db : Database σ ε) (query : Sql.Query) :
    plan.run db query = Prod.snd <$> plan.trace db query ∧
      ∀ session a e after, (plan.trace db query).run session = (.ok (a, e), after) →
        Found.branches a.found = plan.branches ∧
          List.Forall₂ (Row.KeepsBut plan.replaced) (plan.shape.roots a.roots) e.rows ∧
            ∀ f out, Found.Stands a.found e.rows f out →
              ∃ row ∈ f.rows, Row.KeepsBut (f.nested.map Found.name) row out := by
  refine ⟨plan.run_eq_trace db query, fun session a e after hrun => ?_⟩
  exact Plan.gives_trace db query (ordered_of_compile h) session (a, e) after hrun

/-- Staff with a number in the column `count`, and with the id of the boss in a column named like
the relation to the boss. -/
def ranked : Resource :=
  { Resource.ofName "staff" with
    properties := ["boss", "count"]
    relations := Dict.ofList [("boss", ⟨.belongsTo, "staff", "boss", "id"⟩)] }

/-- A schema of such staff only. -/
def rankedSchema : Schema := ⟨Dict.ofList [("staff", ranked)]⟩

/-- A request for the boss and the count. -/
def rankedRequest : Parameters := .ofPairs [("$expand", "boss"), ("$count", "true")]

/-- The relation to the boss. -/
def bossBranch : Branch :=
  .mk
    { name := "boss"
      path := "boss"
      relation := ⟨.belongsTo, "staff", "boss", "id"⟩
      table := "staff"
      primaryKey := ["id"]
      defaultColumns := ["id", "boss"]
      allowedColumns := ["boss", "count", "id"]
      selected := [] } []

/-- The plan of the request for one member of the staff. -/
def rankedPlan : Plan where
  resource := "staff"
  table := "staff"
  shape := .entity
  predicate := some (.compare "id" .eq (.int 1))
  sort := []
  offset := none
  limit := some 1
  rootColumns := ["id", "boss", "count"]
  expansion := some ⟨[bossBranch]⟩
  selection := none
  wantCount := true

theorem compile_ranked : compile ⟨rankedSchema, {}⟩ "staff" rankedRequest (some [.int 1]) =
    .ok rankedPlan := by
  let x : Results :=
    { root := ranked
      options :=
        { filter := none, sort := [], skip := none, top := ({} : Limits).defaultTop,
          expand := ["boss"], select := [], count := true }
      filter := none
      bare := ⟨[bossBranch]⟩
      selection := .empty
      expansion := ⟨[bossBranch]⟩ }
  have hx : Passes ⟨rankedSchema, {}⟩ "staff" rankedRequest x :=
    ⟨by rfl, by rfl, by rfl, by rfl, by rfl, by rfl⟩
  exact entity_eq_ok.2 ⟨x, .compare "id" .eq (.int 1), hx, by rfl, by rfl⟩

/-- A query of staff that nothing restricts. -/
def staffQuery : Sql.Query where
  dialect := .sqlite
  table := ⟨"staff", by decide⟩
  columns := []
  conditions := []
  tree := none
  order := []
  maxRows := none
  skipped := none

/-- The row with the id one, the row of its boss, and the count. -/
def rankedSession : Session (List (List Row)) := ⟨[
  [[("boss", .int 2), ("count", .int 5), ("id", .int 1)]],
  [[("boss", .null), ("count", .int 0), ("id", .int 2)]],
  [[("count", .int 1)]]], []⟩

theorem kept_of_compile_ranked :
    compile ⟨rankedSchema, {}⟩ "staff" rankedRequest (some [.int 1]) = .ok rankedPlan ∧
      ∃ a e after, (rankedPlan.trace Plan.prepared staffQuery).run rankedSession =
          (.ok (a, e), after) ∧ Found.branches a.found = rankedPlan.branches ∧
        List.Forall₂ (Row.KeepsBut rankedPlan.replaced) (rankedPlan.shape.roots a.roots) e.rows ∧
          ∀ f out, Found.Stands a.found e.rows f out →
            ∃ row ∈ f.rows, Row.KeepsBut (f.nested.map Found.name) row out :=
  ⟨compile_ranked, _, _, _, rfl,
    (kept_of_compile compile_ranked Plan.prepared staffQuery).2 rankedSession _ _ _ rfl⟩

/-- Columns that the plan reads are lost where a relation is named like one of them, and where the
count is put into the row. -/
theorem boss_and_count_lost : Schema.build [ranked] = .ok rankedSchema ∧
    compile ⟨rankedSchema, {}⟩ "staff" rankedRequest (some [.int 1]) = .ok rankedPlan ∧
      "boss" ∈ rankedPlan.rootColumns ∧ "count" ∈ rankedPlan.rootColumns ∧
        rankedSession.state.head? = some [[("boss", .int 2), ("count", .int 5), ("id", .int 1)]] ∧
          ((rankedPlan.run Plan.prepared staffQuery).run rankedSession).1.map Envelope.rows = .ok
            [[("boss", .object [("boss", .null), ("count", .int 0), ("id", .int 2)]),
              ("count", .int 1), ("id", .int 1)]] :=
  ⟨by rfl, compile_ranked, by decide, by decide, rfl, rfl⟩

end Planner

end RequestQuery
