import RequestQuery.Proofs.Whitelist

/-!
# The order of branches

The branches of an expansion are kept in the order of their names at every level, so two branches of
a level never have the same name. Putting a branch in its place keeps the order, and paths and
selections are added by nothing else, so every compiled plan has it (`Planner.ordered_of_compile`).
-/

namespace RequestQuery

open Fallible

namespace Branch

/-- At every level the branches stand in the order of their names. -/
inductive Ordered : List Branch → Prop where
  | mk {branches : List Branch} : branches.Pairwise (fun a b => a.name < b.name) →
    (∀ b ∈ branches, Ordered b.branches) → Ordered branches

variable {branches : List Branch}

theorem Ordered.pairwise (h : Ordered branches) :
    branches.Pairwise fun a b => a.name < b.name := by
  cases h with
  | mk hnames _ => exact hnames

theorem Ordered.inside (h : Ordered branches) {b : Branch} (hb : b ∈ branches) :
    Ordered b.branches := by
  cases h with
  | mk _ hbelow => exact hbelow b hb

/-- Two branches of a level have different names. -/
theorem Ordered.nodup (h : Ordered branches) : (branches.map name).Nodup := by
  refine List.pairwise_map.2 (h.pairwise.imp fun {a b} hlt he => ?_)
  rw [he] at hlt
  exact String.lt_irrefl _ hlt

theorem ordered_nil : Ordered [] := .mk .nil nofun

theorem pairwise_put (b : Branch) (h : branches.Pairwise fun a b => a.name < b.name) :
    (put b branches).Pairwise fun a b => a.name < b.name := by
  induction branches with
  | nil => exact List.pairwise_singleton _ _
  | cons other rest ih =>
    obtain ⟨hother, hrest⟩ := List.pairwise_cons.1 h
    rw [put]
    split
    · next hlt =>
      refine List.pairwise_cons.2 ⟨fun c hc => ?_, h⟩
      rcases List.mem_cons.1 hc with rfl | hc
      · exact hlt
      · exact String.lt_trans hlt (hother c hc)
    · split
      · next hname => exact List.pairwise_cons.2 ⟨fun c hc => hname ▸ hother c hc, hrest⟩
      · next hlt hname =>
        refine List.pairwise_cons.2 ⟨fun c hc => ?_, ih hrest⟩
        rcases mem_put hc with rfl | hc
        · exact Entries.lt_of_not_lt_of_ne hlt hname
        · exact hother c hc

/-- **Putting a branch in its place keeps the order.** -/
theorem ordered_put {b : Branch} (hb : Ordered b.branches) (h : Ordered branches) :
    Ordered (put b branches) := by
  refine .mk (pairwise_put b h.pairwise) fun c hc => ?_
  rcases mem_put hc with rfl | hc
  · exact hb
  · exact h.inside hc

/-- Below a branch that is found by its name, or else a new one, the order holds. -/
theorem ordered_of_find?_getD {segment : String} {level : Level} (h : Ordered branches) :
    Ordered ((find? segment branches).getD (.mk level [])).branches := by
  cases hf : find? segment branches with
  | none => exact ordered_nil
  | some b => exact h.inside (mem_of_find? hf)

theorem ordered_addPath {s : Schema} {limits : Limits} {path : String} {parent : Resource}
    {above segments : List String} {branches' : List Branch} (h : Ordered branches)
    (hadd : addPath s limits path parent above segments branches = .ok branches') :
    Ordered branches' := by
  induction segments generalizing parent above branches branches' with
  | nil =>
    cases hadd
    exact h
  | cons segment rest ih =>
    obtain ⟨relation, target, b, below, -, -, rfl, hbelow, rfl⟩ := addPath_cons_eq_ok hadd
    exact ordered_put (ih (ordered_of_find?_getD h) hbelow) h

theorem ordered_select (column : String) (segments : List String) (h : Ordered branches) :
    Ordered (select column segments branches) := by
  induction segments generalizing branches with
  | nil => exact h
  | cons segment rest ih =>
    rw [select]
    cases hf : find? segment branches with
    | none => exact h
    | some b =>
      have hb : Ordered b.branches := h.inside (mem_of_find? hf)
      cases rest with
      | nil => exact ordered_put hb h
      | cons next rest => exact ordered_put (ih hb) h

end Branch

/-! ## Compiled plans -/

theorem Expansion.ordered_build {s : Schema} {root : String} {paths : List String}
    {limits : Limits} {e : Expansion} (h : build s root paths limits = .ok e) :
    Branch.Ordered e.branches := by
  obtain ⟨-, resource, -, hfold⟩ := build_eq_ok.1 h
  exact foldlM_induct Branch.Ordered (fun _ _ _ _ hsofar hadd => Branch.ordered_addPath hsofar hadd)
    Branch.ordered_nil hfold

namespace Selection

variable {s : Schema} {root : Resource}

theorem ordered_addEntry {sofar next : Selection × Expansion} {entry : String}
    (hb : Branch.Ordered sofar.2.branches) (h : addEntry s root sofar entry = .ok next) :
    Branch.Ordered next.2.branches := by
  cases adds_of_addEntry h with
  | root => exact hb
  | nested => exact Branch.ordered_select _ _ hb

theorem ordered_build {entries : List String} {bare : Expansion} {limits : Limits}
    {result : Selection × Expansion} (hb : Branch.Ordered bare.branches)
    (h : build s root entries bare limits = .ok result) :
    Branch.Ordered result.2.branches := by
  exact foldlM_induct (fun sofar => Branch.Ordered sofar.2.branches)
    (fun _ _ _ _ hsofar hadd => ordered_addEntry hsofar hadd) hb (build_eq_ok.1 h).2

end Selection

/-- **The branches of a compiled plan stand in the order of their names**, at every level. -/
theorem Planner.ordered_of_compile {p : Planner} {resource : String} {parameters : Parameters}
    {plan : Plan} {id : Option (List Value)} (h : p.compile resource parameters id = .ok plan) :
    Branch.Ordered plan.branches := by
  obtain ⟨x, hx, -, -, -, hbranches⟩ := passes_of_compile h
  exact hbranches ▸ Selection.ordered_build (Expansion.ordered_build hx.expand) hx.select

end RequestQuery
