import RequestQuery.Plan
import RequestQuery.Proofs.BoundValues
import RequestQuery.Proofs.FilterMeaning

/-!
# Trusted scopes

A query may be restricted to trusted rows before a plan is applied to it. Every condition that is
added is joined to the earlier ones by a conjunction, whatever they are, so a step of a plan asks of
the rows what the query asked before, and its own predicate, and the values bound before stay in
front of its own. The main statement is that a whole plan, taken step after step, can only restrict
a query more.

* `Sql.Condition.truth_conjoin`: the truth of joined conditions.
* `Plan.Step.truth_applyTo`, `Plan.Step.params_applyTo`: what one step keeps.
* `Plan.truth_applyTo`, `Plan.params_applyTo`: what a plan keeps.
-/

namespace RequestQuery

open Fallible

/-! ## Joining conditions -/

namespace Sql

namespace Condition

/-- **A joined condition holds exactly when both parts do**, and is unknown accordingly, whatever
the shape of the earlier one. -/
theorem truth_conjoin (v : Valuation) (earlier : Option Condition) (c : Condition) :
    (Query.conjoin earlier c).truth v =
      (Truth.all (truths v earlier.toList)).and (c.truth v) := by
  -- Only a conjunction takes the new part in; any other condition becomes a part beside it.
  match earlier with
  | none => exact (Truth.holds_and _).symm
  | some (.all parts) =>
    rw [Query.conjoin, truth, truths_append, Truth.all_append, Option.toList_some]
    simp only [truths, truth, Truth.all_cons, Truth.all_nil, Truth.and_holds]
  | some (.atom a) => simp [Query.conjoin, truths, truth]
  | some (.any parts) => simp [Query.conjoin, truths, truth]
  | some (.not part) => simp [Query.conjoin, truths, truth]

/-- A joined condition binds the values of both parts. -/
theorem bound_conjoin (d : Dialect) (earlier : Option Condition) (c : Condition) :
    (Query.conjoin earlier c).bound d = boundBy d earlier.toList ++ c.bound d := by
  match earlier with
  | none => rfl
  | some (.all parts) =>
    rw [Query.conjoin, bound, boundBy_append, Option.toList_some]
    simp only [boundBy, bound, List.append_nil]
  | some (.atom a) => simp [Query.conjoin, boundBy, bound]
  | some (.any parts) => simp [Query.conjoin, boundBy, bound]
  | some (.not part) => simp [Query.conjoin, boundBy, bound]

end Condition

namespace Query

theorem truth_filterTree (v : Valuation) (q : Query) (c : Condition) :
    (q.filterTree c).truth v = (q.truth v).and (c.truth v) := by
  have hparts : (q.filterTree c).parts = q.conditions.map .atom ++ [conjoin q.tree c] := rfl
  rw [truth, hparts, Condition.truths_append, Truth.all_append, truth, parts,
    Condition.truths_append, Truth.all_append, Truth.and_assoc, ← Condition.truth_conjoin]
  simp only [Condition.truths, Truth.all_cons, Truth.all_nil, Truth.and_holds]

theorem params_filterTree (q : Query) (c : Condition) :
    (q.filterTree c).condition.params = q.condition.params ++ c.bound q.dialect := by
  have hparts : (q.filterTree c).parts = q.conditions.map .atom ++ [conjoin q.tree c] := rfl
  have hdialect : (q.filterTree c).dialect = q.dialect := rfl
  rw [params_condition, params_condition, hparts, hdialect, Condition.boundBy_append, parts,
    Condition.boundBy_append, List.append_assoc, ← Condition.bound_conjoin]
  simp only [Condition.boundBy, List.append_nil]

end Query

end Sql

/-! ## Steps and plans -/

namespace Plan

/-- The predicates that a step asks of the rows. -/
def Step.predicates : Step → List Predicate
  | .filter predicate => [predicate]
  | .select _ | .orderBy _ _ | .offset _ | .limit _ => []

/-- What a step does to the rows of a query: nothing, unless it is a predicate, which is joined as a
condition. -/
theorem Step.applyTo_cases {step : Step} {q q' : Sql.Query} (h : step.applyTo q = .ok q') :
    (step.predicates = [] ∧ q'.dialect = q.dialect ∧ q'.parts = q.parts) ∨
      ∃ p c, step = .filter p ∧ p.condition = .ok c ∧ q' = q.filterTree c := by
  cases step with
  | select columns =>
    obtain ⟨is, -, h⟩ := bind_eq_ok.1 h
    obtain rfl := pure_eq_ok.1 h
    exact .inl ⟨rfl, rfl, rfl⟩
  | filter predicate =>
    obtain ⟨c, hc, h⟩ := bind_eq_ok.1 h
    exact .inr ⟨predicate, c, rfl, hc, (pure_eq_ok.1 h).symm⟩
  | orderBy column direction =>
    obtain ⟨i, -, h⟩ := bind_eq_ok.1 h
    obtain rfl := pure_eq_ok.1 h
    exact .inl ⟨rfl, rfl, rfl⟩
  | offset rows =>
    cases h
    exact .inl ⟨rfl, rfl, rfl⟩
  | limit rows =>
    cases h
    exact .inl ⟨rfl, rfl, rfl⟩

/-- **A step asks of the rows what was asked before, and its own predicates.** -/
theorem Step.truth_applyTo {step : Step} {q q' : Sql.Query} (h : step.applyTo q = .ok q')
    (v : Sql.Valuation) :
    q'.truth v = (q.truth v).and (.all (step.predicates.map (·.truth v))) := by
  obtain ⟨hnone, -, hparts⟩ | ⟨p, c, rfl, hc, rfl⟩ := applyTo_cases h
  · rw [hnone, Sql.Query.truth, hparts]
    exact (Truth.and_holds _).symm
  · rw [Sql.Query.truth_filterTree, Predicate.truth_condition hc]
    exact congrArg _ (Truth.and_holds _).symm

/-- A step keeps the values bound before, in front of its own. -/
theorem Step.params_applyTo {step : Step} {q q' : Sql.Query} (h : step.applyTo q = .ok q') :
    q.condition.params <+: q'.condition.params := by
  obtain ⟨-, hdialect, hparts⟩ | ⟨p, c, rfl, -, rfl⟩ := applyTo_cases h
  · have hsame : q'.condition.params = q.condition.params := by
      rw [Sql.Query.params_condition, Sql.Query.params_condition, hdialect, hparts]
    exact hsame ▸ List.prefix_rfl
  · rw [Sql.Query.params_filterTree]
    exact List.prefix_append _ _

/-- Steps ask of the rows what was asked before, and their predicates. -/
theorem truth_foldlM_applyTo {steps : List Step} {q q' : Sql.Query}
    (h : steps.foldlM Step.applyTo q = .ok q') (v : Sql.Valuation) :
    q'.truth v = (q.truth v).and (.all ((steps.flatMap Step.predicates).map (·.truth v))) := by
  induction steps generalizing q with
  | nil =>
    rw [List.foldlM_nil, pure_eq_ok] at h
    subst h
    exact (Truth.and_holds _).symm
  | cons step steps ih =>
    rw [List.foldlM_cons] at h
    obtain ⟨q₁, h₁, h⟩ := bind_eq_ok.1 h
    rw [ih h, step.truth_applyTo h₁, Truth.and_assoc, ← Truth.all_append, ← List.map_append,
      List.flatMap_cons]

/-- A plan asks no predicate of the rows but its own. -/
theorem flatMap_predicates_steps (p : Plan) :
    p.steps.flatMap Step.predicates = p.predicate.toList := by
  have hsort : (p.sort.map fun key => Step.orderBy key.column key.direction).flatMap
      Step.predicates = [] := by
    rw [List.flatMap_map]
    exact List.flatMap_eq_nil_iff.2 fun _ _ => rfl
  rw [steps, List.flatMap_append, List.flatMap_append, List.flatMap_append, List.flatMap_append,
    hsort]
  cases p.predicate <;> cases p.offset <;> cases p.limit <;> rfl

/-- The truth of a query that a plan was applied to. -/
theorem truth_applyTo {p : Plan} {q applied : Sql.Query} (h : p.applyTo q = .ok applied)
    (v : Sql.Valuation) :
    applied.truth v = (q.truth v).and (.all (p.predicate.toList.map (·.truth v))) := by
  rw [truth_foldlM_applyTo h, flatMap_predicates_steps]

/-- The values bound before a plan is applied stay in front. -/
theorem params_applyTo {p : Plan} {q applied : Sql.Query} (h : p.applyTo q = .ok applied) :
    q.condition.params <+: applied.condition.params :=
  foldlM_induct (q.condition.params <+: ·.condition.params)
    (fun _ _ _ _ hq h => hq.trans (Step.params_applyTo h)) List.prefix_rfl h

/-- **A plan can only restrict a query more.** A row that it reads or counts was in the query before
and satisfies the predicate of the plan, and every such row is; the rows that are read and those
that are counted are restricted by the same text with the same values, of which the values that the
query bound before come first. -/
theorem applyTo_restricts {p : Plan} {q applied : Sql.Query} (h : p.applyTo q = .ok applied) :
    (∀ v : Sql.Valuation, applied.truth v = .holds ↔
      q.truth v = .holds ∧ ∀ predicate ∈ p.predicate, predicate.truth v = .holds) ∧
      applied.select.text = s!"SELECT {applied.columnsText} FROM {applied.table.text}" ++
        applied.whereText ++ applied.orderText ++ applied.pageText ∧
        applied.count.text = s!"SELECT COUNT(*) AS count FROM {applied.table.text}" ++
          applied.whereText ∧
          applied.count.params = applied.select.params ∧
            q.select.params <+: applied.select.params := by
  refine ⟨fun v => ?_, rfl, rfl, rfl, params_applyTo h⟩
  rw [truth_applyTo h, Truth.and_eq_holds, Truth.all_eq_holds]
  simp only [List.forall_mem_map, Option.mem_toList, Option.mem_def]

/-- The songs of a label that are released or have no owner. -/
def labelled : Sql.Query where
  dialect := .postgres
  table := ⟨"songs", by decide⟩
  columns := []
  conditions := [⟨⟨"label_id", by decide⟩, .compare .eq, .int 7⟩]
  tree := some (.any [.atom ⟨⟨"released", by decide⟩, .compare .eq, .bool true⟩,
    .atom ⟨⟨"owner_id", by decide⟩, .compare .eq, .null⟩])
  order := []
  maxRows := none
  skipped := none

/-- A page of the songs that are old or have a star in the title. -/
def oldOrStarred : Plan where
  resource := "songs"
  table := "songs"
  shape := .collection
  predicate := some (.or (.compare "year" .lt (.int 1980)) (.like "title" .anywhere "star"))
  sort := [⟨"title", .descending⟩]
  offset := some 20
  limit := some 10
  rootColumns := ["id", "title"]
  expansion := none
  selection := none
  wantCount := true

theorem applyTo_restricts_labelled : ∃ applied, oldOrStarred.applyTo labelled = .ok applied ∧
    (∀ v : Sql.Valuation, applied.truth v = .holds ↔
      labelled.truth v = .holds ∧
        ∀ predicate ∈ oldOrStarred.predicate, predicate.truth v = .holds) ∧
      applied.select.text = s!"SELECT {applied.columnsText} FROM {applied.table.text}" ++
        applied.whereText ++ applied.orderText ++ applied.pageText ∧
        applied.count.text = s!"SELECT COUNT(*) AS count FROM {applied.table.text}" ++
          applied.whereText ∧
          applied.count.params = applied.select.params ∧
            labelled.select.params <+: applied.select.params := by
  obtain ⟨applied, h⟩ := exists_of_isOk (x := oldOrStarred.applyTo labelled) (by decide +kernel)
  exact ⟨applied, h, applyTo_restricts h⟩

end Plan

end RequestQuery
