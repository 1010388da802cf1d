import RequestQuery.Proofs.StatementCount

/-!
# The bounds of accepted requests

No request that is accepted exceeds the limits that are set. The limits themselves can be used
together, however they were set (`Planner.Reached.usable`), so the page of a request is never empty
and never larger than the largest one, whether it was asked for or is the default. The paths of an
expansion bound its depth and its size, the latter the number of statements of a run, and the
entries of a selection bound the number of selected columns.

* `Limits.Usable`, `Planner.Reached`: limits that can be used together; the planners that are made.
* `Options.Reads.top_bounds`: the page of a request.
* `Selection.size_build_le`, `Selection.noted_build_le`: the selected columns.
* `Plan.Bounded`, `Planner.bounded_of_compile`: a plan that does not exceed limits; none does.
-/

namespace RequestQuery

open Fallible

/-! ## Settings -/

/-- Limits that can be used together. -/
structure Limits.Usable (l : Limits) : Prop where
  maxTop : l.maxTop ≠ 0
  defaultTop : l.defaultTop ≠ 0
  defaultTop_le : l.defaultTop ≤ l.maxTop
  maxFilterDepth : l.maxFilterDepth ≠ 0

theorem Limits.check_eq_ok {l : Limits} : l.check = .ok () ↔ l.Usable := by
  unfold check
  split
  · next h => exact ⟨nofun, fun hl => absurd h hl.maxTop⟩
  · next hmax =>
    split
    · next h =>
      refine ⟨nofun, fun hl => ?_⟩
      rcases h with h | h
      · exact absurd h hl.defaultTop
      · exact absurd h (UInt32.not_lt.2 hl.defaultTop_le)
    · next hdefault =>
      obtain ⟨hne, hle⟩ := not_or.1 hdefault
      split
      · next h => exact ⟨nofun, fun hl => absurd h hl.maxFilterDepth⟩
      · next hdepth => exact ⟨fun _ => ⟨hmax, hne, UInt32.not_lt.1 hle, hdepth⟩, fun _ => rfl⟩

namespace Planner

/-- The planners of a schema: the one with the default settings, and those that take other settings
after it. -/
inductive Reached (s : Schema) : Planner → Prop
  | new : Reached s ⟨s, {}⟩
  | withConfig {p p' : Planner} {config : Config} :
      Reached s p → p.withConfig config = .ok p' → Reached s p'
  | withLimits {p p' : Planner} {limits : Limits} :
      Reached s p → p.withLimits limits = .ok p' → Reached s p'

/-- **However its settings were changed, the limits of a planner can be used together.** -/
theorem Reached.usable {s : Schema} {p : Planner} (h : Reached s p) : p.config.limits.Usable := by
  induction h with
  | new => exact Limits.check_eq_ok.1 rfl
  | withConfig _ hset _ =>
    obtain ⟨hcheck, hset⟩ := check_bind_eq_ok.1 hset
    obtain rfl := pure_eq_ok.1 hset
    exact Limits.check_eq_ok.1 (check_bind_eq_ok.1 hcheck).1
  | withLimits _ hset _ =>
    obtain ⟨hcheck, hset⟩ := check_bind_eq_ok.1 hset
    obtain rfl := pure_eq_ok.1 hset
    exact Limits.check_eq_ok.1 hcheck

end Planner

/-! ## Pages -/

namespace Options

theorem readWhole_bounds {option : QueryOption} {value : String} {least greatest n : Int}
    (h : readWhole option value least greatest = .ok n) : least ≤ n ∧ n ≤ greatest := by
  unfold readWhole at h
  split at h
  · cases h
  · split at h
    · cases h
    · next hrange =>
      cases h
      exact ⟨Int.not_lt.1 (not_or.1 hrange).1, Int.not_lt.1 (not_or.1 hrange).2⟩

theorem readTop_bounds {maxTop n : UInt32} {value : String} (h : readTop maxTop value = .ok n) :
    1 ≤ n ∧ n ≤ maxTop := by
  obtain ⟨m, hread, h⟩ := bind_eq_ok.1 h
  obtain ⟨hleast, hgreatest⟩ := readWhole_bounds hread
  unfold narrow at h
  split at h
  · next hsize =>
    cases h
    have hn : (UInt32.ofNat m.toNat).toNat = m.toNat := UInt32.toNat_ofNat_of_lt' (by omega)
    rw [UInt32.le_iff_toNat_le, UInt32.le_iff_toNat_le, hn]
    refine ⟨?_, by omega⟩
    change 1 ≤ m.toNat
    omega
  · cases h

/-- **The page of a request is neither empty nor larger than the largest one.** -/
theorem Reads.top_bounds {p : Parameters} {contract : Contract} {limits : Limits} {o : Options}
    (h : Reads p contract limits o) (hl : limits.Usable) : 1 ≤ o.top ∧ o.top ≤ limits.maxTop := by
  obtain ⟨value, -, htop⟩ := bind_eq_ok.1 h.top
  cases value with
  | none =>
    have htop' : limits.defaultTop = o.top := Except.ok.inj htop
    refine ⟨?_, htop' ▸ hl.defaultTop_le⟩
    rw [← htop', UInt32.le_iff_toNat_le]
    exact Nat.pos_of_ne_zero fun h0 => hl.defaultTop (UInt32.toNat_inj.1 h0)
  | some value => exact readTop_bounds htop

end Options

/-! ## Selected columns -/

/-- A value that is put at a key adds its weight, less that of the one that it replaces. -/
theorem Entries.sum_put {α : Type} (w : α → Nat) (key : String) (value : α)
    {entries : List (String × α)} (h : Ordered entries) :
    ((put key value entries).map fun e => w e.2).sum + ((get? key entries).map w).getD 0 =
      (entries.map fun e => w e.2).sum + w value := by
  induction entries with
  | nil => simp [put]
  | cons e rest ih =>
    obtain ⟨k, v⟩ := e
    obtain ⟨hk, hrest⟩ := List.pairwise_cons.1 h
    rw [put, get?_cons]
    split
    · next hlt =>
      have hne : key ≠ k := fun he => String.lt_irrefl k (he ▸ hlt)
      have hnone : get? key rest = none :=
        get?_eq_none_of_lt fun e he => String.lt_trans hlt (hk e he)
      rw [if_neg hne, hnone]
      simp only [List.map_cons, List.sum_cons, Option.map_none, Option.getD_none]
      omega
    · split
      · simp only [List.map_cons, List.sum_cons, Option.map_some, Option.getD_some]
        omega
      · have hrest := ih hrest
        simp only [List.map_cons, List.sum_cons]
        omega

namespace Selection

/-- The number of selected columns, of the root and of all paths. -/
def size (sel : Selection) : Nat :=
  sel.topLevel.length + (sel.nested.entries.map fun e => e.2.length).sum

theorem size_addNested (sel : Selection) (path column : String) :
    (sel.addNested path column).size = sel.size + 1 := by
  have hsum := Entries.sum_put List.length path ((sel.nested.get? path).getD [] ++ [column])
    sel.nested.ordered
  have hold : ((Entries.get? path sel.nested.entries).map List.length).getD 0 =
      ((sel.nested.get? path).getD []).length := by
    unfold Dict.get?
    cases Entries.get? path sel.nested.entries <;> rfl
  rw [hold, List.length_append, List.length_singleton] at hsum
  unfold size addNested
  change sel.topLevel.length + (List.map _ (Entries.put path _ sel.nested.entries)).sum = _
  omega

variable {s : Schema} {root : Resource}

/-- An entry selects one more column. -/
theorem size_addEntry {sofar next : Selection × Expansion} {entry : String}
    (h : addEntry s root sofar entry = .ok next) : next.1.size = sofar.1.size + 1 := by
  cases adds_of_addEntry h with
  | root =>
    rw [size, size, List.length_append, List.length_singleton]
    exact Nat.add_right_comm _ _ _
  | nested => exact size_addNested sofar.1 _ _

/-- The number of columns that are selected at the root and noted at the levels of an expansion. -/
def noted (sel : Selection) (e : Expansion) : Nat :=
  sel.topLevel.length + Branch.total (fun l => l.selected.length) e.branches

/-- An entry notes one more column at most. -/
theorem noted_addEntry_le {sofar next : Selection × Expansion} {entry : String}
    (ho : Branch.Ordered sofar.2.branches) (h : addEntry s root sofar entry = .ok next) :
    next.1.noted next.2 ≤ sofar.1.noted sofar.2 + 1 := by
  cases adds_of_addEntry h with
  | root =>
    rw [noted, noted, List.length_append, List.length_singleton]
    exact Nat.le_of_eq (Nat.add_right_comm _ _ _)
  | @nested path column =>
    have hselect := Branch.total_select_le (w := fun l => l.selected.length) (k := 1)
      (fun l => Columns.length_add_le l.selected column) (Text.split '/' path) ho
    change sofar.1.topLevel.length + Branch.total _ (Branch.select column _ _) ≤ _
    unfold noted
    omega

variable {entries : List String} {bare : Expansion} {limits : Limits}
  {result : Selection × Expansion}

theorem size_build_le (h : build s root entries bare limits = .ok result) :
    result.1.size ≤ limits.maxColumns := by
  obtain ⟨hlength, hfold⟩ := build_eq_ok.1 h
  have hsize : result.1.size ≤ empty.size + _ * 1 :=
    foldlM_size_le (fun _ => True) (fun sofar => sofar.1.size) 1
      (fun _ _ _ _ _ hadd => ⟨trivial, Nat.le_of_eq (size_addEntry hadd)⟩) trivial hfold
  have hempty : empty.size = 0 := rfl
  omega

theorem noted_build_le (ho : Branch.Ordered bare.branches)
    (hbare : Branch.total (fun l => l.selected.length) bare.branches = 0)
    (h : build s root entries bare limits = .ok result) :
    result.1.noted result.2 ≤ limits.maxColumns := by
  obtain ⟨hlength, hfold⟩ := build_eq_ok.1 h
  have hsize : result.1.noted result.2 ≤ empty.noted bare + _ * 1 :=
    foldlM_size_le (fun sofar => Branch.Ordered sofar.2.branches)
      (fun sofar => sofar.1.noted sofar.2) 1
      (fun _ _ _ _ ho hadd => ⟨ordered_addEntry ho hadd, noted_addEntry_le ho hadd⟩) ho hfold
  have hempty : empty.noted bare = 0 := by
    rw [noted, hbare]
    rfl
  omega

/-- Selecting columns adds no branch. -/
theorem branches_build_le (ho : Branch.Ordered bare.branches)
    (h : build s root entries bare limits = .ok result) :
    (Branch.preorders result.2.branches).length ≤ (Branch.preorders bare.branches).length := by
  rw [← Branch.total_one, ← Branch.total_one]
  refine foldlM_size_le (fun sofar => Branch.Ordered sofar.2.branches)
    (fun sofar => Branch.total (fun _ => 1) sofar.2.branches) 0
    (fun sofar entry next _ ho hadd => ⟨ordered_addEntry ho hadd, ?_⟩) ho (build_eq_ok.1 h).2
  cases adds_of_addEntry hadd with
  | root => exact Nat.le_refl _
  | nested => exact Branch.total_select_le (fun _ => Nat.le_refl 1) _ ho

/-- Nor does it add a deeper one. -/
theorem within_build {n : Nat} (hn : Branch.Within n bare.branches)
    (h : build s root entries bare limits = .ok result) : Branch.Within n result.2.branches := by
  refine foldlM_induct (fun sofar => Branch.Within n sofar.2.branches)
    (fun sofar entry next _ hwithin hadd => ?_) hn (build_eq_ok.1 h).2
  cases adds_of_addEntry hadd with
  | root => exact hwithin
  | nested => exact Branch.within_select _ _ hwithin

end Selection

/-! ## Plans -/

/-- A plan that does not exceed limits. -/
structure Plan.Bounded (l : Limits) (p : Plan) : Prop where
  /-- A page is read, neither empty nor larger than the largest one. -/
  page : ∃ n, p.limit = some n ∧ 1 ≤ n ∧ n ≤ l.maxTop
  /-- The path to a branch has no more segments than a path may have. -/
  depth : ∀ above b, Branch.At p.branches above b → (above ++ [b.name]).length ≤ l.maxRecursionDepth
  /-- There are no more branches than all paths may have segments. -/
  branches : (Branch.preorders p.branches).length ≤ l.maxRelations * l.maxRecursionDepth
  /-- A run asks no more statements than there may be branches, and two. -/
  statements : ∀ {σ ε : Type} (db : Database σ ε) (query : Sql.Query) (session : Session σ),
    ((p.run db query).run session).2.asked.length ≤
      session.asked.length + (2 + l.maxRelations * l.maxRecursionDepth)
  /-- No more columns are selected than may be. -/
  selected : p.selection.elim 0 Selection.size ≤ l.maxColumns
  /-- Nor are more of them noted at the root and at the levels of the expansion. -/
  noted : p.selection.elim 0 (·.topLevel.length) +
    Branch.total (fun level => level.selected.length) p.branches ≤ l.maxColumns

namespace Planner

variable {p : Planner} {resource : String} {parameters : Parameters} {x : Results}

/-- The branches of a compiled plan, and the columns noted at them, are bounded by the limits. -/
theorem Passes.bounds (hx : p.Passes resource parameters x) :
    (Branch.preorders x.expansion.branches).length ≤
        p.config.limits.maxRelations * p.config.limits.maxRecursionDepth ∧
      Branch.Within p.config.limits.maxRecursionDepth x.expansion.branches ∧
        x.selection.noted x.expansion ≤ p.config.limits.maxColumns := by
  have ho : Branch.Ordered x.bare.branches := Expansion.ordered_build hx.expand
  have hbare := Expansion.total_build_le (w := fun _ => 1) (k := 1) (fun _ _ _ _ => Nat.le_refl 1)
    hx.expand
  rw [Branch.total_one, Nat.mul_one] at hbare
  have hnone := Expansion.total_build_le (w := fun l => l.selected.length) (k := 0)
    (fun _ _ _ _ => Nat.le_refl 0) hx.expand
  refine ⟨Nat.le_trans (Selection.branches_build_le ho hx.select) hbare,
    Selection.within_build (Expansion.within_build hx.expand) hx.select,
    Selection.noted_build_le ho (Nat.le_zero.1 hnone) hx.select⟩

theorem selection_plan (x : Results) {n : Nat} (f : Selection → Nat) (h : f x.selection ≤ n) :
    x.plan.selection.elim 0 f ≤ n := by
  change (if x.selection.isEmpty then none else some x.selection : Option Selection).elim 0 f ≤ n
  split
  · exact Nat.zero_le n
  · exact h

/-- The plan of a row has the expansion and the selection of the page, and its limit is one. -/
theorem parts_of_compile {plan : Plan} {id : Option (List Value)}
    (h : p.compile resource parameters id = .ok plan) : ∃ x, p.Passes resource parameters x ∧
      plan.branches = x.expansion.branches ∧ plan.selection = x.plan.selection ∧
        (plan.limit = some x.options.top ∨ plan.limit = some 1) := by
  obtain ⟨x, hx, hplan⟩ := results_of_compile h
  refine ⟨x, hx, ?_⟩
  cases id with
  | none =>
    obtain rfl : plan = x.plan := hplan
    exact ⟨branches_plan x, rfl, .inl rfl⟩
  | some id =>
    obtain ⟨row, -, rfl⟩ := hplan
    exact ⟨branches_plan x, rfl, .inr rfl⟩

/-- **No accepted request exceeds the limits**, of whichever planner that can be made: not the page,
not the depth and the size of the expansion, not the number of statements of a run, whatever the
database answers, and not the number of selected columns. -/
theorem bounded_of_compile {s : Schema} (hp : Reached s p) {plan : Plan}
    {id : Option (List Value)} (h : p.compile resource parameters id = .ok plan) :
    plan.Bounded p.config.limits := by
  obtain ⟨x, hx, hplan, hselection, hlimit⟩ := parts_of_compile h
  obtain ⟨hbranches, hwithin, hnoted⟩ := hx.bounds
  have htop : 1 ≤ x.options.top ∧ x.options.top ≤ p.config.limits.maxTop :=
    (Options.validate_eq_ok.1 hx.options).top_bounds hp.usable
  refine ⟨?_, fun above b hat => ?_, ?_, fun db query session => ?_, ?_, ?_⟩
  · rcases hlimit with hlimit | hlimit
    · exact ⟨x.options.top, hlimit, htop⟩
    · exact ⟨1, hlimit, UInt32.le_refl 1, UInt32.le_trans htop.1 htop.2⟩
  · rw [List.length_append, List.length_singleton]
    exact (hplan ▸ hwithin).length_lt hat
  · rwa [hplan]
  · refine Nat.le_trans (plan.asksAtMost_run db query session) (Nat.add_le_add_left ?_ _)
    rw [hplan]
    exact Nat.add_le_add_left hbranches 2
  · rw [hselection]
    exact selection_plan x Selection.size (Selection.size_build_le hx.select)
  · rw [hselection, hplan]
    have htopLevel := selection_plan x (·.topLevel.length) (Nat.le_refl x.selection.topLevel.length)
    exact Nat.le_trans (Nat.add_le_add_right htopLevel _) hnoted

/-- Limits under which little may be asked for. -/
def tightLimits : Limits where
  defaultTop := 2
  maxTop := 5
  maxRecursionDepth := 2
  maxRelations := 3
  maxColumns := 2

/-- The limits are reached by the request for staff. -/
theorem bounded_of_compile_staff :
    ∃ p plan, Reached staffSchema p ∧ p.config.limits = tightLimits ∧
      p.compile "staff" staffRequest (some [.int 3]) = .ok plan ∧ plan.Bounded tightLimits := by
  have hset : withLimits ⟨staffSchema, {}⟩ tightLimits =
      .ok ⟨staffSchema, { limits := tightLimits }⟩ := rfl
  have hp : Reached staffSchema ⟨staffSchema, { limits := tightLimits }⟩ := .withLimits .new hset
  obtain ⟨plan, h⟩ := exists_of_isOk (x := compile ⟨staffSchema, { limits := tightLimits }⟩ "staff"
    staffRequest (some [.int 3])) (by decide +kernel)
  exact ⟨_, plan, hp, rfl, h, bounded_of_compile hp h⟩

end Planner

end RequestQuery
