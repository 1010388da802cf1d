import RequestQuery.Planner
import RequestQuery.Proofs.Fallible

/-!
# The stages of a compilation

A compilation succeeds when each of its stages does, and its plan is made of what they give. The
results of the stages are a `Planner.Results`; `Planner.Passes` says that each stage gave its
result. Only the last stage looks at the id: the plan of a row is that of the page, made one of the
row.

* `Planner.stages`: the stages before the last; `Planner.compile_eq`: a compilation passes them.
* `Planner.collection_eq_ok`, `Planner.entity_eq_ok`: a plan read back as the results it was made
  of.
* `Options.validate_eq_ok`: the same for the options of a request.
-/

namespace RequestQuery

open Fallible

/-! ## Options -/

/-- The options that a request gives under a contract and limits, option by option. -/
structure Options.Reads (p : Parameters) (contract : Contract) (limits : Limits) (o : Options) :
    Prop where
  keys : ∀ entry ∈ p.toList, checkKey contract entry.1 entry.2 = .ok ()
  filter : (single? p .filter >>= readOr none fun value => some <$> readFilter value) = .ok o.filter
  top : (single? p .top >>= readOr limits.defaultTop (readTop limits.maxTop)) = .ok o.top
  skip : (single? p .skip >>= readOr none fun value => some <$> readSkip value) = .ok o.skip
  count : (single? p .count >>= readOr false readCount) = .ok o.count
  sort : (entries p .sort).mapM (readSort contract) = .ok o.sort
  expand : o.expand = entries p .expand
  select : o.select = entries p .select

/-- Options are valid when each of them is. -/
theorem Options.validate_eq_ok {p : Parameters} {contract : Contract} {limits : Limits}
    {o : Options} : validate p contract limits = .ok o ↔ Reads p contract limits o := by
  unfold validate
  rw [check_bind_eq_ok, forM_eq_ok]
  constructor
  · rintro ⟨hk, h⟩
    obtain ⟨v₁, hv₁, h⟩ := bind_eq_ok.1 h
    obtain ⟨filter, hfilter, h⟩ := bind_eq_ok.1 h
    obtain ⟨v₂, hv₂, h⟩ := bind_eq_ok.1 h
    obtain ⟨top, htop, h⟩ := bind_eq_ok.1 h
    obtain ⟨v₃, hv₃, h⟩ := bind_eq_ok.1 h
    obtain ⟨skip, hskip, h⟩ := bind_eq_ok.1 h
    obtain ⟨v₄, hv₄, h⟩ := bind_eq_ok.1 h
    obtain ⟨count, hcount, h⟩ := bind_eq_ok.1 h
    obtain ⟨sort, hsort, h⟩ := bind_eq_ok.1 h
    obtain rfl := pure_eq_ok.1 h
    exact {
      keys := hk
      filter := bind_eq_ok.2 ⟨v₁, hv₁, hfilter⟩
      top := bind_eq_ok.2 ⟨v₂, hv₂, htop⟩
      skip := bind_eq_ok.2 ⟨v₃, hv₃, hskip⟩
      count := bind_eq_ok.2 ⟨v₄, hv₄, hcount⟩
      sort := hsort
      expand := rfl
      select := rfl }
  · intro h
    refine ⟨h.keys, ?_⟩
    obtain ⟨v₁, hv₁, hfilter⟩ := bind_eq_ok.1 h.filter
    obtain ⟨v₂, hv₂, htop⟩ := bind_eq_ok.1 h.top
    obtain ⟨v₃, hv₃, hskip⟩ := bind_eq_ok.1 h.skip
    obtain ⟨v₄, hv₄, hcount⟩ := bind_eq_ok.1 h.count
    refine bind_eq_ok.2 ⟨v₁, hv₁, bind_eq_ok.2 ⟨_, hfilter, bind_eq_ok.2 ⟨v₂, hv₂,
      bind_eq_ok.2 ⟨_, htop, bind_eq_ok.2 ⟨v₃, hv₃, bind_eq_ok.2 ⟨_, hskip, bind_eq_ok.2 ⟨v₄, hv₄,
        bind_eq_ok.2 ⟨_, hcount, bind_eq_ok.2 ⟨_, h.sort, ?_⟩⟩⟩⟩⟩⟩⟩⟩⟩
    rw [← h.expand, ← h.select]
    rfl

/-! ## Plans -/

/-- The plan of a page of rows made that of the row that a predicate singles out. -/
def Plan.forRow (plan : Plan) (row : Predicate) : Plan :=
  { plan with
    shape := .entity
    predicate := some (plan.predicate.elim row row.and)
    sort := []
    offset := none
    limit := some 1 }

namespace Planner

/-- What the stages of a compilation give. -/
structure Results where
  root : Resource
  options : Options
  filter : Option Predicate
  /-- The expansion before columns are selected in it. -/
  bare : Expansion
  selection : Selection
  expansion : Expansion

/-- The plan that is made of the results of the stages. -/
def Results.plan (x : Results) : Plan where
  resource := x.root.name
  table := x.root.table
  shape := .collection
  predicate := x.filter
  sort := x.options.sort
  offset := x.options.skip
  limit := some x.options.top
  rootColumns := x.selection.rootColumns x.root x.expansion
  expansion := if x.expansion.isEmpty then none else some x.expansion
  selection := if x.selection.isEmpty then none else some x.selection
  wantCount := x.options.count

/-- Every stage of the compilation of a request gives its result. -/
structure Passes (p : Planner) (resource : String) (parameters : Parameters) (x : Results) :
    Prop where
  root : p.schema.get? resource = some x.root
  options :
    Options.validate parameters (p.config.contractFor resource) p.config.limits = .ok x.options
  filter : filterPredicate x.root p.config.limits x.options.filter = .ok x.filter
  sort : checkSort x.root x.options.sort = .ok ()
  expand : Expansion.build p.schema resource x.options.expand p.config.limits = .ok x.bare
  select : Selection.build p.schema x.root x.options.select x.bare p.config.limits =
    .ok (x.selection, x.expansion)

/-- The stages of a compilation before the id is looked at. -/
def stages (p : Planner) (resource : String) (parameters : Parameters) :
    Except Rejection Results := do
  let limits := p.config.limits
  let some root := p.schema.get? resource | .error (.notFound "resource" resource)
  let options ← Options.validate parameters (p.config.contractFor resource) limits
  let filter ← filterPredicate root limits options.filter
  checkSort root options.sort
  let bare ← Expansion.build p.schema resource options.expand limits
  let (selection, expansion) ← Selection.build p.schema root options.select bare limits
  return ⟨root, options, filter, bare, selection, expansion⟩

/-- The last stage: the plan of the page, or that plan made one of the row with the id. -/
def Results.finish (x : Results) : Option (List Value) → Except Rejection Plan
  | none => .ok x.plan
  | some id => x.plan.forRow <$> idPredicate x.root id

variable {p : Planner} {resource : String} {parameters : Parameters} {plan : Plan}

/-- **A compilation looks at the id last.** -/
theorem compile_eq (p : Planner) (resource : String) (parameters : Parameters)
    (id : Option (List Value)) :
    p.compile resource parameters id = p.stages resource parameters >>= (·.finish id) := by
  unfold compile stages
  cases p.schema.get? resource with
  | none => rfl
  | some root =>
    cases id with
    | none =>
      simp only [bind_assoc, pure_bind]
      rfl
    | some id =>
      simp only [extent, Results.finish, map_eq_pure_bind, bind_assoc, pure_bind]
      rfl

theorem stages_eq_ok {x : Results} :
    p.stages resource parameters = .ok x ↔ p.Passes resource parameters x := by
  unfold stages
  cases hroot : p.schema.get? resource with
  | none =>
    refine ⟨nofun, fun hx => ?_⟩
    cases hroot.symm.trans hx.root
  | some root =>
    constructor
    · intro h
      obtain ⟨options, hoptions, h⟩ := bind_eq_ok.1 h
      obtain ⟨filter, hfilter, h⟩ := bind_eq_ok.1 h
      obtain ⟨hsort, h⟩ := check_bind_eq_ok.1 h
      obtain ⟨bare, hbare, h⟩ := bind_eq_ok.1 h
      obtain ⟨⟨selection, expansion⟩, hselection, h⟩ := bind_eq_ok.1 h
      obtain rfl := pure_eq_ok.1 h
      exact ⟨hroot, hoptions, hfilter, hsort, hbare, hselection⟩
    · intro hx
      obtain rfl : root = x.root := Option.some.inj (hroot.symm.trans hx.root)
      exact bind_eq_ok.2 ⟨_, hx.options, bind_eq_ok.2 ⟨_, hx.filter, check_bind_eq_ok.2 ⟨hx.sort,
        bind_eq_ok.2 ⟨_, hx.expand, bind_eq_ok.2 ⟨_, hx.select, rfl⟩⟩⟩⟩⟩

theorem compile_eq_ok {id : Option (List Value)} : p.compile resource parameters id = .ok plan ↔
    ∃ x, p.Passes resource parameters x ∧ x.finish id = .ok plan := by
  rw [compile_eq, bind_eq_ok]
  exact exists_congr fun x => and_congr_left fun _ => stages_eq_ok

theorem collection_eq_ok : p.collection resource parameters = .ok plan ↔
    ∃ x, p.Passes resource parameters x ∧ plan = x.plan :=
  compile_eq_ok.trans <| exists_congr fun _ => and_congr_right fun _ => pure_eq_ok.trans eq_comm

theorem entity_eq_ok {id : List Value} : p.entity resource parameters id = .ok plan ↔
    ∃ x row, p.Passes resource parameters x ∧ idPredicate x.root id = .ok row ∧
      plan = x.plan.forRow row := by
  rw [entity, compile_eq_ok]
  refine exists_congr fun x => ?_
  rw [Results.finish, map_eq_ok, exists_and_left]
  simp only [@eq_comm Plan _ plan]

/-- A plan is that of a page of rows, or it was made of one for the row with an id. -/
theorem results_of_compile {id : Option (List Value)}
    (h : p.compile resource parameters id = .ok plan) : ∃ x, p.Passes resource parameters x ∧
      match id with
      | none => plan = x.plan
      | some id => ∃ row, idPredicate x.root id = .ok row ∧ plan = x.plan.forRow row := by
  cases id with
  | none => exact collection_eq_ok.1 h
  | some id =>
    obtain ⟨x, row, hx, hrow, rfl⟩ := entity_eq_ok.1 h
    exact ⟨x, hx, row, hrow, rfl⟩

end Planner

end RequestQuery
