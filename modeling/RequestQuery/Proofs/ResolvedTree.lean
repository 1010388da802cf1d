import RequestQuery.Proofs.ReadColumns

/-!
# Expansions and the resolution of paths

Adding a path to a tree looks up the same relations as resolving it does, so an expansion is built
exactly from paths that resolve. What is found in it is what its paths lead to, and two trees that
hold the same paths are the same, whatever the order in which these were added and however often.

* `Schema.Leads`: the level to which the names of a path lead; `Schema.FailsAt`: the first name of a
  path that does not resolve.
* `Branch.addPath_cases`: a path is added, or refused at the first name that does not resolve.
* `Branch.Holds`, `Branch.holds_addPath`: a tree holds what given paths lead to, and one path adds
  its prefixes; `Branch.Holds.eq`: the tree is determined by them.
* `Expansion.exists_build_iff`, `Expansion.exists_branch?_iff`, `Expansion.resolved_of_branch?`,
  `Expansion.eq_of_names`, `Expansion.build_unresolved`: when an expansion is built, where branches
  stand in it, what they read, what the tree depends on, and what is answered when a path does not
  resolve.
-/

namespace RequestQuery

open Fallible

/-! ## Paths that lead to a level -/

namespace Schema

/-- The level at the end of a path below a resource. `above` is the path to the resource. -/
inductive Leads (s : Schema) : (above : List String) → Resource → List String → Level → Prop where
  | last {above : List String} {r target : Resource} {segment : String} {relation : Relation} :
    r.allowedRelation? segment = some relation → s.get? relation.target = some target →
      Leads s above r [segment]
        (.ofRelation segment (Text.join "/" (above ++ [segment])) relation target)
  | inside {above rest : List String} {r target : Resource} {segment : String}
    {relation : Relation} {l : Level} : r.allowedRelation? segment = some relation →
      s.get? relation.target = some target → Leads s (above ++ [segment]) target rest l →
        Leads s above r (segment :: rest) l

variable {s : Schema} {r target : Resource} {above : List String}

theorem not_leads_nil {l : Level} : ¬ s.Leads above r [] l := nofun

theorem leads_singleton_iff {segment : String} {relation : Relation} {l : Level}
    (hr : r.allowedRelation? segment = some relation)
    (ht : s.get? relation.target = some target) : s.Leads above r [segment] l ↔
      l = .ofRelation segment (Text.join "/" (above ++ [segment])) relation target := by
  constructor
  · intro h
    cases h with
    | last hr' ht' =>
      cases hr.symm.trans hr'
      cases ht.symm.trans ht'
      rfl
    | inside _ _ hrest => exact absurd hrest not_leads_nil
  · rintro rfl
    exact .last hr ht

theorem leads_cons_cons_iff {segment next : String} {rest : List String} {relation : Relation}
    {l : Level} (hr : r.allowedRelation? segment = some relation)
    (ht : s.get? relation.target = some target) : s.Leads above r (segment :: next :: rest) l ↔
      s.Leads (above ++ [segment]) target (next :: rest) l := by
  constructor
  · intro h
    cases h with
    | inside hr' ht' hrest =>
      cases hr.symm.trans hr'
      cases ht.symm.trans ht'
      exact hrest
  · exact .inside hr ht

/-- A path that can be walked leads to a level. -/
theorem exists_leads {names : List String} (hne : names ≠ []) (h : s.walk r names = some target) :
    ∃ l, s.Leads above r names l := by
  induction names generalizing above r with
  | nil => exact absurd rfl hne
  | cons segment rest ih =>
    rw [walk] at h
    split at h
    · cases h
    · next relation hr =>
      split at h
      · cases h
      · next middle ht =>
        cases rest with
        | nil => exact ⟨_, .last hr ht⟩
        | cons next rest =>
          obtain ⟨l, hl⟩ := ih (List.cons_ne_nil next rest) h
          exact ⟨l, .inside hr ht hl⟩

/-- The level at the end of a path is that of its last name, on the resource that the others lead
to. -/
theorem Leads.of_last {names : List String} {l : Level} (h : s.Leads above r names l) :
    ∃ before owner relation target, names = before ++ [l.name] ∧ s.walk r before = some owner ∧
      owner.allowedRelation? l.name = some relation ∧ s.get? relation.target = some target ∧
        l = .ofRelation l.name (Text.join "/" (above ++ names)) relation target := by
  induction h with
  | last hr ht => exact ⟨[], _, _, _, rfl, rfl, hr, ht, rfl⟩
  | @inside above rest r middle segment relation l hr ht _ ih =>
    obtain ⟨before, owner, relation', target, hrest, hwalk, hr', ht', hl⟩ := ih
    refine ⟨segment :: before, owner, relation', target, by rw [List.cons_append, ← hrest],
      (walk_cons hr ht before).trans hwalk, hr', ht', ?_⟩
    rwa [List.append_assoc, List.singleton_append] at hl

theorem walk_eq_none_of_append {names : List String} (h : s.walk r names = none)
    (rest : List String) : s.walk r (names ++ rest) = none := by
  induction names generalizing r with
  | nil => cases h
  | cons segment names ih =>
    rw [List.cons_append, walk]
    split
    · rfl
    · next relation hr =>
      split
      · rfl
      · next target ht =>
        rw [walk_cons hr ht] at h
        exact ih h

/-! ## Paths that resolve -/

/-- The names lead from the resource with a name to another one. -/
def Resolves (s : Schema) (root : String) (names : List String) : Prop :=
  ∃ target, s.resolve QueryOption.expand.key root names = .ok target

/-- The name is the first of a path that does not resolve. -/
def FailsAt (s : Schema) (root : String) (names : List String) (segment : String) : Prop :=
  ∃ before rest, names = before ++ segment :: rest ∧ s.Resolves root before ∧
    ¬ s.Resolves root (before ++ [segment])

theorem resolves_iff {root : String} (hr : s.get? root = some r) {names : List String} :
    s.Resolves root names ↔ ∃ target, s.walk r names = some target :=
  exists_congr fun _ => resolve_eq_ok_iff_walk hr

theorem not_resolves_iff {root : String} (hr : s.get? root = some r) {names : List String} :
    ¬ s.Resolves root names ↔ s.walk r names = none := by
  rw [resolves_iff hr, ← Option.isSome_iff_exists, Option.not_isSome_iff_eq_none]

theorem FailsAt.not_resolves {root segment : String} (hr : s.get? root = some r)
    {names : List String} (h : s.FailsAt root names segment) : ¬ s.Resolves root names := by
  obtain ⟨before, rest, rfl, -, hfails⟩ := h
  rw [not_resolves_iff hr] at hfails ⊢
  rw [List.append_cons]
  exact walk_eq_none_of_append hfails rest

end Schema

namespace Branch

variable {s : Schema} {parent : Resource} {above : List String} {branches : List Branch}

/-! ## Adding a path -/

/-- **A path that is no longer than the limit is added, or refused at the first name that does not
resolve.** What stands in the tree does not matter. -/
theorem addPath_cases {limits : Limits} (path : String) {segments : List String}
    (hdepth : above.length + segments.length ≤ limits.maxRecursionDepth)
    (branches : List Branch) :
    ((∃ target, s.walk parent segments = some target) ∧
      ∃ branches', addPath s limits path parent above segments branches = .ok branches') ∨
    ∃ before segment rest, segments = before ++ segment :: rest ∧
      (∃ owner, s.walk parent before = some owner) ∧
        s.walk parent (before ++ [segment]) = none ∧
          addPath s limits path parent above segments branches =
            .error (.unknownRelation path segment) := by
  induction segments generalizing above parent branches with
  | nil => exact .inl ⟨⟨parent, rfl⟩, branches, rfl⟩
  | cons segment rest ih =>
    rw [List.length_cons] at hdepth
    have hroom : ¬ limits.maxRecursionDepth ≤ above.length := by omega
    rw [addPath, if_neg hroom]
    cases hr : parent.allowedRelation? segment with
    | none =>
      refine .inr ⟨[], segment, rest, rfl, ⟨parent, rfl⟩, ?_, rfl⟩
      rw [List.nil_append, Schema.walk, hr]
    | some relation =>
      cases ht : s.get? relation.target with
      | none =>
        refine .inr ⟨[], segment, rest, rfl, ⟨parent, rfl⟩, ?_, by simp only [ht]⟩
        simp only [List.nil_append, Schema.walk, hr, ht]
      | some target =>
        have hhere : (above ++ [segment]).length + rest.length ≤ limits.maxRecursionDepth := by
          rw [List.length_append, List.length_singleton]
          omega
        simp only [ht]
        rcases ih hhere ((find? segment branches).getD (mk (.ofRelation segment
          (Text.join "/" (above ++ [segment])) relation target) [])).branches with
          ⟨hwalk, below, hbelow⟩ | ⟨before, last, rest', rfl, howner, hnone, hbelow⟩
        · left
          rw [Schema.walk_cons hr ht, hbelow]
          exact ⟨hwalk, _, rfl⟩
        · refine .inr ⟨segment :: before, last, rest', rfl, ?_, ?_, by rw [hbelow]; rfl⟩
          · rwa [Schema.walk_cons hr ht]
          · rwa [List.cons_append, Schema.walk_cons hr ht]

/-! ## What a tree holds -/

/-- At the end of each of the given paths that leads to a level this level is found, and nothing is
found elsewhere. -/
def Holds (s : Schema) (above : List String) (parent : Resource) (given : List String → Prop)
    (branches : List Branch) : Prop :=
  ∀ names l, (follow? names branches).map level = some l ↔
    given names ∧ s.Leads above parent names l

variable {given : List String → Prop}

theorem follow?_nil (names : List String) : follow? names [] = none := by
  cases names with
  | nil => rfl
  | cons name rest => rw [follow?_cons]; rfl

theorem holds_nil : Holds s above parent (fun _ => False) [] := by
  intro names l
  rw [follow?_nil]
  exact ⟨nofun, fun h => h.1.elim⟩

theorem Holds.congr {given' : List String → Prop} (h : Holds s above parent given branches)
    (hgiven : ∀ names, given names ↔ given' names) : Holds s above parent given' branches :=
  fun names l => (h names l).trans (and_congr_left' (hgiven names))

section Step

variable {segment : String} {relation : Relation} {target : Resource} {b : Branch}

/-- Below the branch with a name, or else below a new one, stand the rests of the given paths that
begin with the name. -/
theorem Holds.inside (h : Holds s above parent given branches)
    (hr : parent.allowedRelation? segment = some relation)
    (ht : s.get? relation.target = some target) {level : Level}
    (hb : b = (find? segment branches).getD (mk level [])) :
    Holds s (above ++ [segment]) target (fun names => given (segment :: names)) b.branches := by
  intro names l
  cases names with
  | nil => exact ⟨nofun, fun hl => absurd hl.2 Schema.not_leads_nil⟩
  | cons name rest =>
    rw [← Schema.leads_cons_cons_iff hr ht, ← h, follow?_cons segment]
    cases hf : find? segment branches with
    | none =>
      rw [hf] at hb
      rw [hb, Option.getD_none, Branch.branches, follow?_nil]
      rfl
    | some found =>
      rw [hf] at hb
      rw [hb]
      rfl

/-- The branch with a name, or else a new one, is the level that the name leads to. -/
theorem Holds.level (h : Holds s above parent given branches)
    (hr : parent.allowedRelation? segment = some relation)
    (ht : s.get? relation.target = some target)
    (hb : b = (find? segment branches).getD
      (mk (.ofRelation segment (Text.join "/" (above ++ [segment])) relation target) [])) :
    b.level = .ofRelation segment (Text.join "/" (above ++ [segment])) relation target := by
  cases hf : find? segment branches with
  | none =>
    rw [hf] at hb
    rw [hb]
    rfl
  | some found =>
    rw [hf, Option.getD_some] at hb
    have hfound : (follow? [segment] branches).map Branch.level = some b.level := by
      rw [follow?_cons, hf, hb]
      rfl
    exact (Schema.leads_singleton_iff hr ht).1 ((h _ _).1 hfound).2

end Step

/-- **A path adds its prefixes to those that a tree holds.** -/
theorem holds_addPath {limits : Limits} {path : String} {segments : List String}
    {branches' : List Branch} (h : Holds s above parent given branches)
    (hadd : addPath s limits path parent above segments branches = .ok branches') :
    Holds s above parent (fun names => given names ∨ names <+: segments) branches' := by
  induction segments generalizing above parent branches branches' given with
  | nil =>
    cases hadd
    intro names l
    rw [h]
    refine and_congr_left fun hl => ⟨.inl, ?_⟩
    rintro (hgiven | hnil)
    · exact hgiven
    · rw [List.prefix_nil] at hnil
      exact absurd (hnil ▸ hl) Schema.not_leads_nil
  | cons segment rest ih =>
    obtain ⟨relation, target, b, below, hr, ht, hb, hbelow, rfl⟩ := addPath_cons_eq_ok hadd
    have hlevel := h.level hr ht hb
    have hinside := ih (h.inside hr ht hb) hbelow
    have hname : (mk b.level below).name = segment := congrArg Level.name hlevel
    intro names l
    cases names with
    | nil => exact ⟨nofun, fun hl => absurd hl.2 Schema.not_leads_nil⟩
    | cons name names =>
      change _ ↔ (given (name :: names) ∨ name :: names <+: segment :: rest) ∧ _
      by_cases hsame : name = segment
      · subst hsame
        have hfind : find? name (put (mk b.level below) branches) = some (mk b.level below) :=
          hname ▸ find?_put_self (mk b.level below) branches
        rw [follow?_cons, hfind, Option.bind_some, List.cons_prefix_cons]
        cases names with
        | nil =>
          rw [Schema.leads_singleton_iff hr ht, ← hlevel]
          simp only [down?, Option.map_some, Branch.level, Option.some.injEq, true_and,
            List.nil_prefix, or_true]
          exact eq_comm
        | cons next names =>
          rw [Schema.leads_cons_cons_iff hr ht]
          simp only [true_and]
          exact hinside (next :: names) l
      · have hne : name ≠ (mk b.level below).name := hname ▸ hsame
        have hother : ¬ name :: names <+: segment :: rest := fun hp =>
          hsame (List.cons_prefix_cons.1 hp).1
        rw [follow?_cons, find?_put_of_ne hne, ← follow?_cons, h, or_iff_left hother]

/-- What a tree holds after paths were added one by one. -/
theorem Holds.foldlM {limits : Limits} {paths : List String} {names : String → List String}
    {branches' : List Branch} (h : Holds s [] parent given branches)
    (hfold : paths.foldlM (fun branches path => addPath s limits path parent [] (names path)
      branches) branches = .ok branches') :
    Holds s [] parent (fun ns => given ns ∨ ∃ path ∈ paths, ns <+: names path) branches' := by
  induction paths generalizing branches given with
  | nil =>
    cases hfold
    exact h.congr fun ns => by simp only [List.not_mem_nil, false_and, exists_false, or_false]
  | cons path paths ih =>
    rw [List.foldlM_cons] at hfold
    obtain ⟨middle, hmiddle, hfold⟩ := bind_eq_ok.1 hfold
    refine (ih (holds_addPath h hmiddle) hfold).congr fun ns => ?_
    simp only [List.mem_cons, or_and_right, exists_or, exists_eq_left, or_assoc]

/-! ## Trees with the same levels -/

theorem get?_map_name (name : String) (branches : List Branch) :
    Entries.get? name (branches.map fun b => (b.name, b)) = find? name branches := by
  induction branches with
  | nil => rfl
  | cons b rest ih =>
    rw [List.map_cons, Entries.get?_cons, find?_cons, ih]
    exact ite_congr (propext eq_comm) (fun _ => rfl) (fun _ => rfl)

/-- Branches in order are determined by what is found by their names. -/
theorem eq_of_find?_eq {branches' : List Branch}
    (h : branches.Pairwise fun a b => a.name < b.name)
    (h' : branches'.Pairwise fun a b => a.name < b.name)
    (hfind : ∀ name, find? name branches = find? name branches') : branches = branches' := by
  have hentries : branches.map (fun b => (b.name, b)) = branches'.map (fun b => (b.name, b)) :=
    Entries.eq_of_get?_eq (List.pairwise_map.2 h) (List.pairwise_map.2 h') fun name => by
      rw [get?_map_name, get?_map_name, hfind]
  simpa only [List.map_map, Function.comp_def, List.map_id'] using
    congrArg (List.map Prod.snd) hentries

/-- **A tree is determined by the levels at its paths.** -/
theorem eq_of_levels {branches' : List Branch} (h : Ordered branches) (h' : Ordered branches')
    (hlevels : ∀ names, (follow? names branches).map level = (follow? names branches').map level) :
    branches = branches' := by
  induction h generalizing branches' with
  | @mk branches hnames _ ih =>
    refine eq_of_find?_eq hnames h'.pairwise fun name => ?_
    have hlevel := hlevels [name]
    cases hf : find? name branches with
    | none =>
      cases hf' : find? name branches' with
      | none => rfl
      | some b' =>
        rw [follow?_cons, follow?_cons, hf, hf'] at hlevel
        cases hlevel
    | some b =>
      cases hf' : find? name branches' with
      | none =>
        rw [follow?_cons, follow?_cons, hf, hf'] at hlevel
        cases hlevel
      | some b' =>
        rw [follow?_cons, follow?_cons, hf, hf'] at hlevel
        have hbelow := ih b (mem_of_find? hf) (h'.inside (mem_of_find? hf')) fun names => by
          cases names with
          | nil => rfl
          | cons next rest =>
            have hrest := hlevels (name :: next :: rest)
            rwa [follow?_cons, follow?_cons, hf, hf'] at hrest
        cases b with
        | mk level below =>
          cases b' with
          | mk level' below' =>
            obtain rfl : level = level' := Option.some.inj hlevel
            obtain rfl : below = below' := hbelow
            rfl

/-- **Two trees that hold the same paths are the same.** -/
theorem Holds.eq {given' : List String → Prop} {branches' : List Branch}
    (h : Holds s above parent given branches) (h' : Holds s above parent given' branches')
    (ho : Ordered branches) (ho' : Ordered branches')
    (hgiven : ∀ names, given names ↔ given' names) : branches = branches' :=
  eq_of_levels ho ho' fun names =>
    Option.ext fun l => ((h.congr hgiven) names l).trans (h' names l).symm

end Branch

/-! ## Levels that are resolved -/

/-- The level at the end of a path from the root: the last of its names is that of a relation that a
request may expand on the resource to which the others lead, and what is read is what the relation
and its target say. -/
structure Level.Resolved (s : Schema) (root : String) (names : List String)
    (owner target : Resource) (l : Level) : Prop where
  owner_eq : s.resolve QueryOption.expand.key root names.dropLast = .ok owner
  name_eq : names.getLast? = some l.name
  expands : owner.allowedRelation? l.name = some l.relation
  target_eq : s.resolve QueryOption.expand.key root names = .ok target
  resource_eq : l.relation.target = target.name
  path_eq : l.path = Text.join "/" names
  table_eq : l.table = target.table
  primaryKey_eq : l.primaryKey = target.idColumns
  defaultColumns_eq :
    l.defaultColumns = Columns.add target.defaultColumns l.relation.relatedColumn
  allowedColumns_eq : l.allowedColumns = target.allowedColumns
  selected_eq : l.selected = []

theorem Level.exists_resolved {s : Schema} {root : String} {r : Resource} (hs : s.Closed)
    (hr : s.get? root = some r) {names : List String} {l : Level}
    (h : s.Leads [] r names l) : ∃ owner target, l.Resolved s root names owner target := by
  obtain ⟨before, owner, relation, target, hnames, hwalk, hrelation, ht, hl⟩ := h.of_last
  rw [List.nil_append] at hl
  obtain rfl : l.relation = relation := congrArg Level.relation hl
  have hall : s.walk r names = some target := by
    rw [hnames, Schema.walk_append hwalk, Schema.walk_cons hrelation ht, Schema.walk]
  refine ⟨owner, target, {
    owner_eq := ?_
    name_eq := by rw [hnames, List.getLast?_concat]
    expands := hrelation
    target_eq := (Schema.resolve_eq_ok_iff_walk hr).2 hall
    resource_eq := (hs.name_eq _ _ ht).symm
    path_eq := congrArg Level.path hl
    table_eq := congrArg Level.table hl
    primaryKey_eq := congrArg Level.primaryKey hl
    defaultColumns_eq := congrArg Level.defaultColumns hl
    allowedColumns_eq := congrArg Level.allowedColumns hl
    selected_eq := congrArg Level.selected hl }⟩
  rwa [Schema.resolve_eq_ok_iff_walk hr, hnames, List.dropLast_concat]

/-! ## Expansions -/

namespace Expansion

variable {s : Schema} {root : String} {paths : List String} {limits : Limits} {e : Expansion}
  {r : Resource}

/-- No name has a slash. -/
theorem notMem_of_mem_names {path name : String} (h : name ∈ names path) : '/' ∉ name.toList := by
  obtain ⟨piece, hpiece, rfl⟩ := List.mem_map.1 h
  rw [Text.toList_trim]
  exact mt Text.mem_of_mem_trimChars (Text.notMem_of_mem_split hpiece)

/-- A path resolves and is added, or it is refused at the first name that does not resolve. -/
theorem addPath_names_cases (h : WellFormed limits paths) (hr : s.get? root = some r)
    {path : String} (hpath : path ∈ paths) (branches : List Branch) :
    (s.Resolves root (names path) ∧
      ∃ branches', Branch.addPath s limits path r [] (names path) branches = .ok branches') ∨
    ∃ segment, s.FailsAt root (names path) segment ∧
      Branch.addPath s limits path r [] (names path) branches =
        .error (.unknownRelation path segment) := by
  have hdepth : ([] : List String).length + (names path).length ≤ limits.maxRecursionDepth := by
    rw [List.length_nil, Nat.zero_add]
    exact h.short path hpath
  rcases Branch.addPath_cases path hdepth branches with ⟨hwalk, hadd⟩ |
    ⟨before, segment, rest, hnames, hbefore, hnone, hadd⟩
  · exact .inl ⟨(Schema.resolves_iff hr).2 hwalk, hadd⟩
  · exact .inr ⟨segment, ⟨before, rest, hnames, (Schema.resolves_iff hr).2 hbefore,
      (Schema.not_resolves_iff hr).2 hnone⟩, hadd⟩

/-- Paths that resolve are added. -/
theorem exists_foldlM_addPath (h : WellFormed limits paths) (hr : s.get? root = some r)
    {before : List String} (hbefore : before ⊆ paths)
    (hresolves : ∀ path ∈ before, s.Resolves root (names path)) :
    ∃ branches, before.foldlM (fun branches path =>
      Branch.addPath s limits path r [] (names path) branches) [] = .ok branches := by
  refine exists_foldlM_eq_ok (fun branches path hpath => ?_) []
  rcases addPath_names_cases h hr (hbefore hpath) branches with ⟨-, hadd⟩ | ⟨_, hfails, -⟩
  · exact hadd
  · exact absurd (hresolves path hpath) (hfails.not_resolves hr)

/-- **An expansion is built exactly from paths that are within the limits and resolve.** -/
theorem exists_build_iff : (∃ e, build s root paths limits = .ok e) ↔
    WellFormed limits paths ∧ (∃ r, s.get? root = some r) ∧
      ∀ path ∈ paths, s.Resolves root (names path) := by
  constructor
  · rintro ⟨e, h⟩
    obtain ⟨hform, r, hr, hfold⟩ := build_eq_ok.1 h
    refine ⟨hform, ⟨r, hr⟩, fun path hpath => ?_⟩
    have hall := forall_of_foldlM (P := fun _ path => path ∈ paths → s.Resolves root (names path))
      (fun branches path branches' hadd hmem => ?_) (fun _ _ _ _ _ hkept => hkept) hfold
    · exact hall path hpath hpath
    · rcases addPath_names_cases hform hr hmem branches with ⟨hresolves, -⟩ | ⟨_, -, hrefused⟩
      · exact hresolves
      · cases hadd.symm.trans hrefused
  · rintro ⟨hform, ⟨r, hr⟩, hresolves⟩
    obtain ⟨branches, hfold⟩ := exists_foldlM_addPath hform hr (List.Subset.refl _) hresolves
    exact ⟨⟨branches⟩, build_eq_ok.2 ⟨hform, r, hr, hfold⟩⟩

/-- **The first path that does not resolve is refused**, at its first name that does not. -/
theorem build_unresolved (h : WellFormed limits paths) (hroot : ∃ r, s.get? root = some r)
    (hsome : ∃ path ∈ paths, ¬ s.Resolves root (names path)) :
    ∃ before path after segment, paths = before ++ path :: after ∧
      (∀ path' ∈ before, s.Resolves root (names path')) ∧ s.FailsAt root (names path) segment ∧
        build s root paths limits = .error (.unknownRelation path segment) := by
  classical
  obtain ⟨r, hr⟩ := hroot
  obtain ⟨path, hfind⟩ := Option.isSome_iff_exists.1 (List.find?_isSome.2 (by
    simpa only [decide_eq_true_eq] using hsome :
      ∃ path ∈ paths, decide (¬ s.Resolves root (names path)) = true))
  obtain ⟨hno, before, after, hpaths, hbefore⟩ := List.find?_eq_some_iff_append.1 hfind
  have hresolves : ∀ path' ∈ before, s.Resolves root (names path') := fun path' hpath' => by
    simpa using hbefore path' hpath'
  have hsubset : before ⊆ paths := fun path' hpath' => hpaths ▸ List.mem_append_left _ hpath'
  obtain ⟨branches, hfold⟩ := exists_foldlM_addPath h hr hsubset hresolves
  rcases addPath_names_cases h hr (List.mem_of_find?_eq_some hfind) branches with
    ⟨hyes, -⟩ | ⟨segment, hfails, hrefused⟩
  · exact absurd hyes (of_decide_eq_true hno)
  · refine ⟨before, path, after, segment, hpaths, hresolves, hfails, ?_⟩
    rw [build_eq h hr, hpaths, foldlM_eq_error hfold hrefused]
    rfl

/-- What is found in an expansion is what the prefixes of its paths lead to. -/
theorem holds_build (hr : s.get? root = some r) (h : build s root paths limits = .ok e) :
    Branch.Holds s [] r (fun ns => ∃ path ∈ paths, ns <+: names path) e.branches := by
  obtain ⟨-, top, htop, hfold⟩ := build_eq_ok.1 h
  obtain rfl : r = top := Option.some.inj (hr.symm.trans htop)
  exact (Branch.holds_nil.foldlM hfold).congr fun ns => by rw [false_or]

/-- **The tree depends on nothing but the set of its paths.** -/
theorem eq_of_names {paths' : List String} {limits' : Limits} {e' : Expansion}
    (h : build s root paths limits = .ok e) (h' : build s root paths' limits' = .ok e')
    (hnames : ∀ ns, ns ∈ paths.map names ↔ ns ∈ paths'.map names) : e = e' := by
  obtain ⟨-, r, hr, -⟩ := build_eq_ok.1 h
  have hsub {paths paths' : List String}
      (hsubset : ∀ ns ∈ paths.map names, ns ∈ paths'.map names) (ns : List String) :
      (∃ path ∈ paths, ns <+: names path) → ∃ path ∈ paths', ns <+: names path := by
    rintro ⟨path, hpath, hbegins⟩
    obtain ⟨path', hpath', hsame⟩ := List.mem_map.1 (hsubset _ (List.mem_map_of_mem hpath))
    exact ⟨path', hpath', hsame ▸ hbegins⟩
  have hgiven (ns : List String) : (∃ path ∈ paths, ns <+: names path) ↔
      ∃ path ∈ paths', ns <+: names path :=
    ⟨hsub (fun full => (hnames full).1) ns, hsub (fun full => (hnames full).2) ns⟩
  have hbranches : e.branches = e'.branches := (holds_build hr h).eq (holds_build hr h')
    (ordered_build h) (ordered_build h') hgiven
  cases e
  cases e'
  exact congrArg mk hbranches

theorem exists_branch?_iff_split (h : build s root paths limits = .ok e) {p : String} :
    (∃ b, e.branch? p = some b) ↔ ∃ path ∈ paths, Text.split '/' p <+: names path := by
  obtain ⟨-, ⟨r, hr⟩, hresolves⟩ := exists_build_iff.1 ⟨e, h⟩
  have hholds := holds_build hr h (Text.split '/' p)
  constructor
  · rintro ⟨b, hb⟩
    exact ((hholds b.level).1 (congrArg (Option.map Branch.level) hb)).1
  · rintro ⟨path, hpath, rest, hrest⟩
    cases hwalk : s.walk r (Text.split '/' p) with
    | none =>
      have hnone := Schema.walk_eq_none_of_append hwalk rest
      rw [hrest, ← Schema.not_resolves_iff hr] at hnone
      exact absurd (hresolves path hpath) hnone
    | some target =>
      obtain ⟨l, hl⟩ := Schema.exists_leads (Text.split_ne_nil '/' p) hwalk
      obtain ⟨b, hb, -⟩ := Option.map_eq_some_iff.1 ((hholds l).2 ⟨⟨path, hpath, rest, hrest⟩, hl⟩)
      exact ⟨b, hb⟩

/-- **A branch stands at each non-empty prefix of a path**, with slashes between the names, and
nowhere else. -/
theorem exists_branch?_iff (h : build s root paths limits = .ok e) {p : String} :
    (∃ b, e.branch? p = some b) ↔
      ∃ path ∈ paths, ∃ ns, ns ≠ [] ∧ ns <+: names path ∧ p = Text.join "/" ns := by
  rw [exists_branch?_iff_split h]
  refine exists_congr fun path => and_congr_right fun _ => ⟨fun hp => ?_, ?_⟩
  · exact ⟨_, Text.split_ne_nil '/' p, hp, (Text.join_split '/' p).symm⟩
  · rintro ⟨ns, hne, hbegins, rfl⟩
    have hsplit : Text.split '/' (Text.join "/" ns) = ns := Text.split_join_of_notMem hne
      fun name hname => notMem_of_mem_names (hbegins.subset hname)
    rwa [hsplit]

/-- **A branch reads what its path resolves to.** -/
theorem resolved_of_branch? (hs : s.Closed) (h : build s root paths limits = .ok e) {p : String}
    {b : Branch} (hb : e.branch? p = some b) : b.level.path = p ∧
      ∃ owner target, b.level.Resolved s root (Text.split '/' p) owner target := by
  obtain ⟨-, r, hr, -⟩ := build_eq_ok.1 h
  have hleads := ((holds_build hr h (Text.split '/' p) b.level).1
    (congrArg (Option.map Branch.level) hb)).2
  have hresolved := Level.exists_resolved hs hr hleads
  obtain ⟨owner, target, hlevel⟩ := hresolved
  exact ⟨hlevel.path_eq.trans (Text.join_split '/' p), owner, target, hlevel⟩

/-- **Building an expansion is resolving its paths.** It succeeds exactly when the paths are within
the limits, the root is there and every path resolves. Then branches stand at the non-empty prefixes
of the paths and nowhere else, each reads what its path resolves to, and the tree depends on nothing
but the set of the paths. When only the resolution of a path fails, the first such path is refused
at its first name that does not resolve. -/
theorem build_resolves {resources : List Resource} (hs : Schema.build resources = .ok s)
    (root : String) (paths : List String) (limits : Limits) :
    ((∃ e, build s root paths limits = .ok e) ↔
      WellFormed limits paths ∧ (∃ r, s.get? root = some r) ∧
        ∀ path ∈ paths, s.Resolves root (names path)) ∧
    (∀ e, build s root paths limits = .ok e →
      (∀ p, (∃ b, e.branch? p = some b) ↔
        ∃ path ∈ paths, ∃ ns, ns ≠ [] ∧ ns <+: names path ∧ p = Text.join "/" ns) ∧
      (∀ p b, e.branch? p = some b → b.level.path = p ∧
        ∃ owner target, b.level.Resolved s root (Text.split '/' p) owner target) ∧
      ∀ paths' limits' e', build s root paths' limits' = .ok e' →
        (∀ ns, ns ∈ paths.map names ↔ ns ∈ paths'.map names) → e = e') ∧
    (WellFormed limits paths → (∃ r, s.get? root = some r) →
      (∃ path ∈ paths, ¬ s.Resolves root (names path)) →
      ∃ before path after segment, paths = before ++ path :: after ∧
        (∀ path' ∈ before, s.Resolves root (names path')) ∧
          s.FailsAt root (names path) segment ∧
            build s root paths limits = .error (.unknownRelation path segment)) := by
  refine ⟨exists_build_iff, fun e h => ⟨fun p => exists_branch?_iff h, fun p b hb => ?_,
    fun paths' limits' e' h' => eq_of_names h h'⟩, build_unresolved⟩
  exact resolved_of_branch? (Schema.closed_of_build hs) h hb

open Planner (staff staffSchema)

/-- The boss of the boss and the reports are expanded alike from two lists of paths, and a team that
there is not is refused. -/
theorem build_resolves_staff : Schema.build [staff] = .ok staffSchema ∧
    (∃ e, build staffSchema "staff" ["reports", " boss / boss"] {} = .ok e ∧
      build staffSchema "staff" ["boss/boss", "reports", "boss/boss"] {} = .ok e ∧
        ∃ b, e.branch? "boss" = some b ∧ b.level.path = "boss" ∧ ∃ owner target,
          b.level.Resolved staffSchema "staff" (Text.split '/' "boss") owner target) ∧
    ∃ before path after segment, ["boss/boss", "boss/team/boss", "team"] = before ++ path :: after ∧
      staffSchema.FailsAt "staff" (names path) segment ∧
        build staffSchema "staff" ["boss/boss", "boss/team/boss", "team"] {} =
          .error (.unknownRelation path segment) := by
  have hs : Schema.build [staff] = .ok staffSchema := by rfl
  refine ⟨hs, ?_, ?_⟩
  · obtain ⟨e, he⟩ := exists_of_isOk (x := build staffSchema "staff" ["reports", " boss / boss"] {})
      (by decide +kernel)
    obtain ⟨e', he'⟩ := exists_of_isOk
      (x := build staffSchema "staff" ["boss/boss", "reports", "boss/boss"] {}) (by decide +kernel)
    obtain ⟨hstands, hreads, hset⟩ := (build_resolves hs "staff" _ {}).2.1 e he
    have hnames : ["reports", " boss / boss"].map names = [["reports"], ["boss", "boss"]] ∧
        ["boss/boss", "reports", "boss/boss"].map names =
          [["boss", "boss"], ["reports"], ["boss", "boss"]] := by decide +kernel
    obtain rfl : e = e' := hset _ _ _ he' fun ns => by
      rw [hnames.1, hnames.2]
      grind
    obtain ⟨b, hb⟩ := (hstands "boss").2
      ⟨" boss / boss", by decide, ["boss"], by decide, by decide +kernel, by decide⟩
    exact ⟨e, he, he', b, hb, hreads "boss" b hb⟩
  · have hr : staffSchema.get? "staff" = some staff := by rfl
    obtain ⟨before, path, after, segment, hpaths, -, hfails, hrefused⟩ :=
      (build_resolves hs "staff" ["boss/boss", "boss/team/boss", "team"] {}).2.2
        ⟨by decide, by decide +kernel, by decide +kernel⟩ ⟨staff, hr⟩
        ⟨"team", by decide, (Schema.not_resolves_iff hr).2 (by rfl)⟩
    exact ⟨before, path, after, segment, hpaths, hfails, hrefused⟩

end Expansion

end RequestQuery
