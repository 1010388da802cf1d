import RequestQuery.Proofs.AcceptedNames
import RequestQuery.Proofs.LoadRun
import RequestQuery.Proofs.Whitelist

/-!
# Names in statements

A name enters a statement only as an identifier, and a name that is none is refused. No request
gets that far: when a closed schema compiled a plan, every name that the plan gives to a query is
that of a declared column or of a table, and those were found to be identifiers when the schema was
built. So the steps of a plan all succeed on every query (`Plan.exists_applyTo`), the statement of
every branch can be written (`Branch.exists_statement`), and a run of the plan never fails by a name
(`Plan.keepsNames_run`), whatever the database answers.
-/

namespace RequestQuery

open Fallible

/-! ## Plans -/

namespace Plan

/-- The names that a step gives to a query. -/
def Step.names : Step → List String
  | .select columns => columns
  | .filter predicate => predicate.tested
  | .orderBy column _ => [column]
  | .offset _ | .limit _ => []

theorem Step.exists_applyTo {step : Step}
    (h : ∀ name ∈ step.names, Sql.Identifier.flaw? name = none) (q : Sql.Query) :
    ∃ q', step.applyTo q = .ok q' := by
  cases step with
  | select columns => exact Sql.Query.exists_fields h q
  | filter predicate =>
    obtain ⟨c, hc⟩ := Predicate.exists_condition_iff.2 h
    exact ⟨_, bind_eq_ok.2 ⟨c, hc, rfl⟩⟩
  | orderBy column direction =>
    exact Sql.Query.exists_sort (h column (List.mem_singleton_self _)) q direction
  | offset rows => exact ⟨_, rfl⟩
  | limit rows => exact ⟨_, rfl⟩

/-- **A plan whose steps give identifiers only applies to every query.** -/
theorem exists_applyTo {p : Plan}
    (h : ∀ step ∈ p.steps, ∀ name ∈ step.names, Sql.Identifier.flaw? name = none)
    (q : Sql.Query) : ∃ q', p.applyTo q = .ok q' :=
  exists_foldlM_eq_ok (fun q step hstep => Step.exists_applyTo (h step hstep) q) q

end Plan

/-! ## Branches -/

namespace Branch

variable {s : Schema} {parent : Resource}

/-- **The statement of a permitted branch can be written**, if the schema is closed. -/
theorem exists_statement (hs : s.Closed) (hp : parent.Fits s.resources) {b : Branch}
    (hb : b.Permitted s parent) (d : Sql.Dialect) (keys : List Value) :
    ∃ statement, b.statement d keys = .ok statement := by
  obtain ⟨target, hl, hfits, -, hrelated, hcolumns⟩ := hb.declared hs hp
  have htable : Sql.Identifier.flaw? b.level.table = none := hl.table_eq ▸ hfits.table_valid
  obtain ⟨table, htable⟩ := Sql.Query.exists_ofTable htable d
  obtain ⟨columns, hcolumns⟩ := Sql.Query.exists_fields
    (fun column hc => hfits.declared_valid (hcolumns column hc)) table
  obtain ⟨filtered, hfiltered⟩ := Sql.Query.exists_filter (hfits.declared_valid hrelated) columns
    .member (.list keys)
  have hsort : ∀ q : Sql.Query, ∀ column ∈ b.level.primaryKey,
      ∃ q', q.sort column .ascending = .ok q' := by
    intro q column hc
    rw [hl.primaryKey_eq] at hc
    exact Sql.Query.exists_sort (hfits.declared_valid (Resource.idColumn_declared hc)) q .ascending
  obtain ⟨sorted, hsorted⟩ := exists_foldlM_eq_ok hsort filtered
  exact ⟨sorted.select, bind_eq_ok.2 ⟨table, htable, bind_eq_ok.2 ⟨columns, hcolumns,
    bind_eq_ok.2 ⟨filtered, hfiltered, bind_eq_ok.2 ⟨sorted, hsorted, rfl⟩⟩⟩⟩⟩

variable {σ ε : Type} (db : Database σ ε) (d : Sql.Dialect)

theorem keepsNames_rows (hs : s.Closed) (hp : parent.Fits s.resources) {b : Branch}
    (hb : b.Permitted s parent) (parents : List Row) : (b.rows db d parents).KeepsNames := by
  unfold rows
  split
  · exact .pure _
  · obtain ⟨statement, hstatement⟩ :=
      exists_statement hs hp hb d (ownerKeys b.level.relation.ownerColumn parents)
    rw [hstatement]
    exact .bind (.pure statement) fun _ => .ask db _

theorem keepsNames_loadAll {branches : List Branch}
    (h : ∀ b ∈ branches, ∀ parents, (b.load db d parents).KeepsNames) (parents : List Row) :
    (loadAll db d branches parents).KeepsNames := by
  induction branches generalizing parents with
  | nil =>
    rw [loadAll]
    exact .pure _
  | cons b rest ih =>
    rw [loadAll]
    exact .bind (h b List.mem_cons_self parents) fun rows =>
      ih (fun c hc => h c (List.mem_cons_of_mem _ hc)) rows

/-- Loading a permitted branch never fails by a name, at any depth. -/
theorem keepsNames_load (hs : s.Closed) {b : Branch} (hb : b.Permitted s parent)
    (hp : parent.Fits s.resources) (parents : List Row) : (b.load db d parents).KeepsNames := by
  -- On the derivation, not the branch: each level fits among the resources as a target of the
  -- schema.
  induction hb generalizing parents with
  | @mk parent target level branches hl hbelow ih =>
    rw [load]
    refine .bind (keepsNames_rows db d hs hp (.mk hl hbelow) parents) fun found => ?_
    refine .bind (keepsNames_loadAll db d (fun b hb => ih b hb (hs.fits _ _ hl.reads)) found) ?_
    exact fun complete => .pure _

end Branch

/-! ## Compiled plans -/

namespace Plan

variable {s : Schema} {root : Resource} {contract : Contract} {p : Plan}

/-- The columns that a plan reads of its root are declared. -/
theorem Whitelisted.rootColumn_declared (h : p.Whitelisted s root contract)
    (hf : root.Fits s.resources) : ∀ column ∈ p.rootColumns, root.hasColumn column = true := by
  intro column hc
  refine hf.declared_of_mayRead (fun c hj => ?_) (h.rootColumns column hc)
  obtain ⟨b, hb, rfl⟩ := List.mem_map.1 hj
  obtain ⟨owner, target, hw, hr, -⟩ := h.expansion [] b (.here hb)
  obtain rfl : root = owner := Option.some.inj hw
  exact (hf.joined _ _ (Resource.get?_of_allowedRelation? hr)).1

/-- **The names that a plan gives to a query are identifiers**, if it keeps to the white list of a
resource that fits. -/
theorem Whitelisted.names_valid (h : p.Whitelisted s root contract)
    (hf : root.Fits s.resources) :
    ∀ step ∈ p.steps, ∀ name ∈ step.names, Sql.Identifier.flaw? name = none := by
  intro step hstep name hname
  refine hf.declared_valid ?_
  simp only [steps, List.mem_append, List.mem_singleton, List.mem_map, Option.mem_toList] at hstep
  rcases hstep with (((rfl | ⟨q, hq, rfl⟩) | ⟨key, hkey, rfl⟩) | ⟨rows, -, rfl⟩) | ⟨rows, -, rfl⟩
  · exact h.rootColumn_declared hf name hname
  · rcases h.predicate q hq name (Columns.mem_distinct.2 hname) with hc | ⟨-, hc⟩
    · exact hf.allowed_declared hc
    · exact Resource.idColumn_declared hc
  · obtain rfl : name = key.column := List.mem_singleton.1 hname
    exact hf.allowed_declared (h.sort key hkey).1
  · cases hname
  · cases hname

/-- A run never fails by a name when the plan applies to the query and its branches are loaded
without such a failure. -/
theorem keepsNames_run {σ ε : Type} (db : Database σ ε) {q : Sql.Query}
    (happly : ∃ applied, p.applyTo q = .ok applied)
    (hload : ∀ rows, (Branch.loadAll db q.dialect p.branches rows).KeepsNames) :
    (p.run db q).KeepsNames := by
  obtain ⟨applied, happlied⟩ := happly
  unfold run
  rw [happlied]
  refine .bind (.pure applied) fun _ => .bind (.ask db _) fun found => .bind (hload found) ?_
  intro rows
  simp only
  split
  · exact .bind (.map _ (.count db _)) fun _ => .pure _
  · exact .bind (.pure _) fun _ => .pure _

end Plan

namespace Planner

variable {p : Planner} {resource : String} {parameters : Parameters}

/-- **No request can make a statement out of a name that is no identifier.** When a schema that was
built compiles a request, a query of the plan's table can be made for both databases, the plan
applies to every query, and its run never fails by a name, whatever the query holds already and
whatever the database answers. -/
theorem compiled_names_accepted {resources : List Resource}
    (hs : Schema.build resources = .ok p.schema) {plan : Plan} {id : Option (List Value)}
    (h : p.compile resource parameters id = .ok plan) :
    (∀ d, ∃ q, Sql.Query.ofTable d plan.table = .ok q) ∧
      ∀ q : Sql.Query, (∃ applied, plan.applyTo q = .ok applied) ∧
        ∀ (σ ε : Type) (db : Database σ ε) (session : Session σ) (bad : Sql.BadName),
          ((plan.run db q).run session).1 ≠ .error (.badName bad) := by
  obtain ⟨x, hx, hw, -, htable, hbranches⟩ := passes_of_compile h
  have hclosed : p.schema.Closed := Schema.closed_of_build hs
  have hf : x.root.Fits p.schema.resources := hclosed.fits _ _ hx.root
  refine ⟨fun d => Sql.Query.exists_ofTable (htable ▸ hf.table_valid) d, fun q => ?_⟩
  have happly := Plan.exists_applyTo (hw.names_valid hf) q
  refine ⟨happly, fun σ ε db => Plan.keepsNames_run db happly ?_⟩
  rw [hbranches]
  exact Branch.keepsNames_loadAll db q.dialect fun b hb =>
    Branch.keepsNames_load db q.dialect hclosed (hx.permitted b hb) hf

theorem compiled_names_accepted_staff : Schema.build [staff] = .ok staffSchema ∧ ∃ plan,
    compile ⟨staffSchema, {}⟩ "staff" staffRequest (some [.int 3]) = .ok plan ∧
      (∀ d, ∃ q, Sql.Query.ofTable d plan.table = .ok q) ∧
        ∀ q : Sql.Query, (∃ applied, plan.applyTo q = .ok applied) ∧
          ∀ (σ ε : Type) (db : Database σ ε) (session : Session σ) (bad : Sql.BadName),
            ((plan.run db q).run session).1 ≠ .error (.badName bad) := by
  have hs : Schema.build [staff] = .ok staffSchema := by rfl
  obtain ⟨plan, h⟩ := exists_of_isOk (x := compile ⟨staffSchema, {}⟩ "staff" staffRequest
    (some [.int 3])) (by decide +kernel)
  exact ⟨hs, plan, h, compiled_names_accepted hs h⟩

end Planner

end RequestQuery
