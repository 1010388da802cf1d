import RequestQuery.Proofs.AlikeFilters
import RequestQuery.Proofs.Truth

/-!
# Plans of single rows

The plan of the row with an id is that of the page, for the row only. It is compiled exactly when
that of the page is and the id has a value for each id column, none of them a list; and a filter
only restricts it further: its predicate holds on a row when the row has the id and satisfies the
filter, also when the filter is a disjunction and when a value of the id is null.

* `Sql.RowReading.HasId`: a row has an id; `Planner.truth_of_idPredicate`: its predicate says so.
* `Planner.idPredicate_eq_ok_iff`: which ids have a predicate.
* `Planner.entity_agrees`: the plans of a page and of a row of it.
-/

namespace RequestQuery

open Fallible

/-! ## Ids -/

namespace Sql.RowReading

/-- A row equals a value in a column, or is null there for null. -/
def Equals (row : RowReading) (column : String) : Value → Prop
  | .null => row.isNull column = true
  | value => row.compare column .eq value = .holds

/-- A row equals the values of an id in the columns. -/
def HasId (row : RowReading) (columns : List String) (id : List Value) : Prop :=
  ∀ pair ∈ columns.zip id, row.Equals pair.1 pair.2

end Sql.RowReading

namespace Predicate

theorem truth_equals (row : Sql.RowReading) (column : String) (value : Value) :
    (equals column value).truth row.valuation = .holds ↔ row.Equals column value := by
  cases value with
  | null =>
    change Truth.ofBool (row.isNull column) = .holds ↔ row.isNull column = true
    cases row.isNull column <;> decide
  | bool b => exact Iff.rfl
  | int n => exact Iff.rfl
  | float x => exact Iff.rfl
  | text s => exact Iff.rfl
  | list items => exact Iff.rfl

/-- A conjunction that is grouped to the left holds when each part does. -/
theorem truth_foldl_and (v : Sql.Valuation) (first : Predicate) (rest : List Predicate) :
    (rest.foldl .and first).truth v = .holds ↔
      first.truth v = .holds ∧ ∀ p ∈ rest, p.truth v = .holds := by
  induction rest generalizing first with
  | nil => exact ⟨fun h => ⟨h, nofun⟩, And.left⟩
  | cons p rest ih =>
    rw [List.foldl_cons, ih, truth, Truth.and_eq_holds, List.forall_mem_cons, and_assoc]

end Predicate

namespace Planner

theorem truth_conjunction? {predicates : List Predicate} {p : Predicate}
    (h : conjunction? predicates = some p) (v : Sql.Valuation) :
    p.truth v = .holds ↔ ∀ part ∈ predicates, part.truth v = .holds := by
  cases predicates with
  | nil => cases h
  | cons first rest =>
    cases h
    rw [Predicate.truth_foldl_and, List.forall_mem_cons]

variable {root : Resource} {id : List Value}

/-- The ids of a resource: a value for each id column, none of them a list. -/
def IsId (root : Resource) (id : List Value) : Prop :=
  id.length = root.idColumns.length ∧ ∀ value ∈ id, value.isList = false

/-- **An id of a resource has a predicate.** -/
theorem exists_idPredicate (hne : root.idColumns ≠ []) (h : IsId root id) :
    ∃ row, idPredicate root id = .ok row := by
  obtain ⟨hlength, hscalar⟩ := h
  have hany : id.any Value.isList = false :=
    List.any_eq_false.2 fun value hvalue => by rw [hscalar value hvalue]; exact Bool.false_ne_true
  unfold idPredicate
  simp only [hlength, hany, ne_eq, not_true_eq_false, if_false, Bool.false_eq_true]
  cases hcolumns : root.idColumns with
  | nil => exact absurd hcolumns hne
  | cons column columns =>
    cases id with
    | nil =>
      rw [hcolumns] at hlength
      cases hlength
    | cons value id => exact ⟨_, rfl⟩

/-- Whatever else is given for an id is refused. -/
theorem idPredicate_of_not_isId (h : ¬ IsId root id) :
    ∃ reason, idPredicate root id = .error (.invalid "id" (idText id) reason) := by
  unfold idPredicate
  by_cases hlength : id.length = root.idColumns.length
  · have hlist : id.any Value.isList = true := by
      rw [← Bool.not_eq_false, List.any_eq_false]
      exact fun hnone => h ⟨hlength, fun value hvalue => Bool.eq_false_iff.2 (hnone value hvalue)⟩
    simp only [hlength, hlist, ne_eq, not_true_eq_false, if_false, if_true]
    exact ⟨_, rfl⟩
  · simp only [hlength, ne_eq, not_false_eq_true, if_true]
    exact ⟨_, rfl⟩

/-- **The predicate of an id holds on the rows that have it.** -/
theorem truth_of_idPredicate {q : Predicate} (h : idPredicate root id = .ok q)
    (row : Sql.RowReading) :
    q.truth row.valuation = .holds ↔ row.HasId root.idColumns id := by
  unfold idPredicate at h
  split at h
  · cases h
  · split at h
    · cases h
    · split at h
      · next hconj =>
        cases h
        rw [truth_conjunction? hconj, ← List.map_uncurry_zip_eq_zipWith, List.forall_mem_map]
        exact forall₂_congr fun pair _ => Predicate.truth_equals row pair.1 pair.2
      · cases h

/-! ## Plans -/

theorem truth_forRow (plan : Plan) (row : Predicate) (v : Sql.Valuation) :
    (plan.predicate.elim row row.and).truth v = .holds ↔
      row.truth v = .holds ∧ ∀ p ∈ plan.predicate, p.truth v = .holds := by
  cases plan.predicate with
  | none => exact ⟨fun h => ⟨h, nofun⟩, And.left⟩
  | some p =>
    change (row.and p).truth v = .holds ↔ _
    rw [Predicate.truth, Truth.and_eq_holds]
    simp only [Option.mem_def, Option.some.injEq, forall_eq']

variable {p : Planner} {resource : String} {parameters : Parameters}

/-- What is refused for a page is refused for a row. -/
theorem entity_of_error {e : Rejection} (h : p.collection resource parameters = .error e)
    (id : List Value) : p.entity resource parameters id = .error e := by
  rw [collection, compile_eq] at h
  rw [entity, compile_eq]
  rcases bind_eq_error.1 h with hstages | ⟨x, -, hplan⟩
  · rw [hstages]
    rfl
  · cases hplan

/-- The plan of a row is the plan of the page, made one of the row that the id singles out. -/
theorem entity_of_passes {x : Results} (hx : p.Passes resource parameters x) (id : List Value) :
    p.entity resource parameters id = x.plan.forRow <$> idPredicate x.root id := by
  rw [entity, compile_eq, stages_eq_ok.2 hx]
  rfl

/-- **The plans of a page and of a row of it agree.** What is refused for a page is refused for a
row in the same way. When the page has a plan, the row with an id has the plan of the page for that
row, whose predicate holds on a row when it has the id and is on the page; and whatever is no id of
the resource is refused as such. -/
theorem entity_agrees {resources : List Resource} (hs : Schema.build resources = .ok p.schema)
    (resource : String) (parameters : Parameters) (id : List Value) :
    (∀ e, p.collection resource parameters = .error e →
        p.entity resource parameters id = .error e) ∧
      ∀ page, p.collection resource parameters = .ok page →
        ∃ root, p.schema.get? resource = some root ∧
          (IsId root id → ∃ q, p.entity resource parameters id =
              .ok { page with
                shape := .entity, predicate := some q, sort := [], offset := none,
                limit := some 1 } ∧
            ∀ row : Sql.RowReading, q.truth row.valuation = .holds ↔
              row.HasId root.idColumns id ∧
                ∀ filter ∈ page.predicate, filter.truth row.valuation = .holds) ∧
          (¬ IsId root id → ∃ reason, p.entity resource parameters id =
            .error (.invalid "id" (idText id) reason)) := by
  refine ⟨fun e he => entity_of_error he id, fun page hpage => ?_⟩
  obtain ⟨x, hx, rfl⟩ := collection_eq_ok.1 hpage
  have hf : x.root.Fits p.schema.resources := (Schema.closed_of_build hs).fits _ _ hx.root
  refine ⟨x.root, hx.root, fun hid => ?_, fun hid => ?_⟩
  · obtain ⟨row, hrow⟩ := exists_idPredicate hf.idColumns_ne_nil hid
    refine ⟨x.plan.predicate.elim row row.and, ?_, fun reading => ?_⟩
    · rw [entity_of_passes hx, hrow]
      rfl
    · rw [truth_forRow, truth_of_idPredicate hrow]
  · obtain ⟨reason, hreason⟩ := idPredicate_of_not_isId hid
    refine ⟨reason, ?_⟩
    rw [entity_of_passes hx, hreason]
    rfl

/-- Seats, which are known by row and number. -/
def seat : Resource :=
  { Resource.ofName "seats" with
    idColumns := ["row", "number"]
    properties := ["row", "number", "price"] }

/-- A schema of seats only. -/
def seatSchema : Schema := ⟨Dict.ofList [("seats", seat)]⟩

/-- A request for the seats that are cheap or first in their row. -/
def seatRequest : Parameters :=
  .ofPairs [("$filter", "price lt 5 or number eq 1"), ("$sort", "-price"), ("$top", "3")]

theorem compile_seatFilter : Filter.compile "price lt 5 or number eq 1" seat {} =
    .ok (.or (.compare "price" .lt (.int 5)) (.compare "number" .eq (.int 1))) := by
  have hks : Filter.tokenKinds "price lt 5 or number eq 1" = .ok [.word "price", .word "lt", .int 5,
      .word "or", .word "number", .word "eq", .int 1] := by
    have hprice : Filter.IsName "price" := Filter.isName_of_letters rfl rfl
    have hlt : Filter.IsName "lt" := Filter.isName_of_letters rfl rfl
    have hor : Filter.IsName "or" := Filter.isName_of_letters rfl rfl
    have hnumber : Filter.IsName "number" := Filter.isName_of_letters rfl rfl
    have heq : Filter.IsName "eq" := Filter.isName_of_letters rfl rfl
    refine Filter.tokenKinds_of_spellAll ?_ (by decide)
    simp only [List.forall_mem_cons]
    exact ⟨hprice, hlt, trivial, hor, hnumber, heq, trivial, nofun⟩
  have hprice : Filter.Derives .operand 0 [.word "price", .word "lt", .int 5]
      (.compare "price" .lt (.int 5)) :=
    .operand_compare "price" ⟨"lt", rfl, by decide⟩ (.int 5)
  have hnumber : Filter.Derives .operand 0 [.word "number", .word "eq", .int 1]
      (.compare "number" .eq (.int 1)) :=
    .operand_compare "number" ⟨"eq", rfl, by decide⟩ (.int 1)
  have hparse := Filter.parse_of_derives hks
    (.or (.conjunction (.operand hprice)) ⟨"or", rfl, by decide⟩ (.operand hnumber))
    (Nat.zero_le (Limits.maxFilterDepth {}))
  exact check_bind_eq_ok.2 ⟨by rfl, mapError_eq_ok.2 (bind_eq_ok.2 ⟨_, hparse, by rfl⟩)⟩

/-- The plan of the page of such seats. -/
def seatPage : Plan where
  resource := "seats"
  table := "seats"
  shape := .collection
  predicate := some (.or (.compare "price" .lt (.int 5)) (.compare "number" .eq (.int 1)))
  sort := [⟨"price", .descending⟩]
  offset := none
  limit := some 3
  rootColumns := ["row", "number", "price"]
  expansion := none
  selection := none
  wantCount := false

theorem collection_seat :
    collection ⟨seatSchema, {}⟩ "seats" seatRequest = .ok seatPage := by
  let x : Results :=
    { root := seat
      options :=
        { filter := some "price lt 5 or number eq 1", sort := [⟨"price", .descending⟩],
          skip := none, top := 3, expand := [], select := [], count := false }
      filter := seatPage.predicate
      bare := .empty
      selection := .empty
      expansion := .empty }
  have hx : Passes ⟨seatSchema, {}⟩ "seats" seatRequest x :=
    ⟨by rfl, by rfl, map_eq_ok.2 ⟨_, compile_seatFilter, rfl⟩, by rfl, by rfl, by rfl⟩
  exact collection_eq_ok.2 ⟨x, hx, by rfl⟩

/-- Neither a filter that is a disjunction nor the null in the id lets another seat in. -/
theorem entity_agrees_seat : Schema.build [seat] = .ok seatSchema ∧
    IsId seat [.null, .int 7] ∧ collection ⟨seatSchema, {}⟩ "seats" seatRequest = .ok seatPage ∧
      ∃ q, entity ⟨seatSchema, {}⟩ "seats" seatRequest [.null, .int 7] =
          .ok { seatPage with
            shape := .entity, predicate := some q, sort := [], offset := none, limit := some 1 } ∧
        ∀ row : Sql.RowReading, q.truth row.valuation = .holds ↔
          row.HasId seat.idColumns [.null, .int 7] ∧
            ∀ filter ∈ seatPage.predicate, filter.truth row.valuation = .holds := by
  have hs : Schema.build [seat] = .ok seatSchema := by rfl
  have hid : IsId seat [.null, .int 7] := ⟨rfl, by decide⟩
  obtain ⟨root, hroot, hagrees, -⟩ := (entity_agrees (p := ⟨seatSchema, {}⟩) hs "seats" seatRequest
    [.null, .int 7]).2 seatPage collection_seat
  obtain rfl : seat = root := Option.some.inj hroot
  exact ⟨hs, hid, collection_seat, hagrees hid⟩

end Planner

end RequestQuery
