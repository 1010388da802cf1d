import RequestQuery.Proofs.ClosedSchema

/-!
# Accepted schemas

Which lists of resources make a schema. Each name may stand once, so that the resources have a
dictionary by name (`Schema.byName`), and each resource has to fit among them. The dictionary is the
same in whatever order the resources are listed, and the checks see nothing else of the list; so a
list and a permutation of it give the same schema or the same fault (`Schema.build_eq_of_perm`).

In a schema that is built every relation has its target. A path that does not resolve therefore
starts at no resource or has a segment that may not be expanded
(`Schema.Closed.resolve_eq_error_iff`).

* `Schema.build_accepts`: all of it.
-/

namespace RequestQuery

open Fallible

namespace Schema

/-! ## Resources by name -/

/-- The resources of a list by their names. -/
def byName (rs : List Resource) : Dict Resource := Dict.ofList (rs.map fun r => (r.name, r))

/-- Collecting succeeds when no name stands twice, and puts each resource at its name. -/
theorem collect_eq_ok {rs : List Resource} {sofar resources : Dict Resource} :
    collect sofar rs = .ok resources ↔
      (∀ r ∈ rs, sofar.contains r.name = false) ∧ (rs.map (·.name)).Nodup ∧
        resources = rs.foldl (fun d r => d.insert r.name r) sofar := by
  induction rs generalizing sofar with
  | nil =>
    refine ⟨fun h => ⟨nofun, List.nodup_nil, (Except.ok.inj h).symm⟩, ?_⟩
    rintro ⟨-, -, rfl⟩
    rfl
  | cons first rest ih =>
    rw [collect, List.forall_mem_cons, List.map_cons, List.nodup_cons, List.foldl_cons]
    cases hfirst : sofar.contains first.name with
    | true => simp
    | false =>
      have hfresh : (∀ r ∈ rest, (sofar.insert first.name first).contains r.name = false) ↔
          first.name ∉ rest.map (·.name) ∧ ∀ r ∈ rest, sofar.contains r.name = false := by
        simp only [Dict.contains_insert, Bool.or_eq_false_iff, beq_eq_false_iff_ne, ne_eq,
          List.mem_map, not_exists, not_and, forall_and]
      simp only [Bool.false_eq_true, if_false, ih, hfresh, true_and]
      constructor
      · rintro ⟨⟨hfirst, hrest⟩, hnodup, heq⟩
        exact ⟨hrest, ⟨hfirst, hnodup⟩, heq⟩
      · rintro ⟨hrest, ⟨hfirst, hnodup⟩, heq⟩
        exact ⟨⟨hfirst, hrest⟩, hnodup, heq⟩

theorem collect_byName {rs : List Resource} (h : (rs.map (·.name)).Nodup) :
    collect Dict.empty rs = .ok (byName rs) :=
  collect_eq_ok.2 ⟨fun _ _ => rfl, h, by rw [byName, Dict.ofList, List.foldl_map]⟩

/-- A collected resource was there before or stands at its own name. -/
theorem get?_of_collect {rs : List Resource} {sofar resources : Dict Resource}
    (h : collect sofar rs = .ok resources) (name : String) (r : Resource) :
    resources.get? name = some r ↔ sofar.get? name = some r ∨ r ∈ rs ∧ r.name = name := by
  induction rs generalizing sofar with
  | nil =>
    cases h
    simp
  | cons first rest ih =>
    rw [collect] at h
    split at h
    · cases h
    · next hfresh =>
      rw [ih h, List.mem_cons]
      by_cases hn : name = first.name
      · subst hn
        have hnone : sofar.get? first.name = none := by simpa [Dict.contains] using hfresh
        rw [Dict.get?_insert_self, hnone]
        grind
      · rw [Dict.get?_insert_of_ne _ hn]
        grind

theorem get?_byName {rs : List Resource} (h : (rs.map (·.name)).Nodup) (name : String)
    (r : Resource) : (byName rs).get? name = some r ↔ r ∈ rs ∧ r.name = name := by
  rw [get?_of_collect (collect_byName h) name r]
  simp

/-- The order of the list does not show. -/
theorem byName_eq_of_perm {rs rs' : List Resource} (h : (rs.map (·.name)).Nodup)
    (hp : rs.Perm rs') : byName rs = byName rs' := by
  have h' : (rs'.map (·.name)).Nodup := (hp.map _).nodup_iff.1 h
  refine Dict.ext_get? fun name => Option.ext fun r => ?_
  rw [get?_byName h, get?_byName h', hp.mem_iff]

/-! ## Building -/

/-- A schema is built of resources with distinct names that fit among each other. -/
theorem build_eq_ok_iff_byName {rs : List Resource} {s : Schema} : build rs = .ok s ↔
    ((rs.map (·.name)).Nodup ∧ ∀ r ∈ rs, r.Fits (byName rs)) ∧ s.resources = byName rs := by
  rw [build_eq_ok]
  constructor
  · intro ⟨hcollect, hfits⟩
    have hnodup : (rs.map (·.name)).Nodup := (collect_eq_ok.1 hcollect).2.1
    have hs : s.resources = byName rs := by
      rw [collect_byName hnodup] at hcollect
      exact (Except.ok.inj hcollect).symm
    rw [hs] at hfits
    refine ⟨⟨hnodup, fun r hr => hfits r ?_⟩, hs⟩
    exact (Dict.mem_values_iff ..).2 ⟨r.name, (get?_byName hnodup ..).2 ⟨hr, rfl⟩⟩
  · intro ⟨⟨hnodup, hfits⟩, hs⟩
    rw [hs]
    refine ⟨collect_byName hnodup, fun r hr => ?_⟩
    obtain ⟨name, hname⟩ := (Dict.mem_values_iff ..).1 hr
    exact hfits r ((get?_byName hnodup ..).1 hname).1

/-- **The order of resources with distinct names does not matter**, neither for the schema nor for
the fault. -/
theorem build_eq_of_perm {rs rs' : List Resource} (h : (rs.map (·.name)).Nodup)
    (hp : rs.Perm rs') : build rs = build rs' := by
  have h' : (rs'.map (·.name)).Nodup := (hp.map _).nodup_iff.1 h
  rw [build, build, collect_byName h, collect_byName h', byName_eq_of_perm h hp]

/-! ## Paths that do not resolve -/

/-- In a closed schema a walk stops only at a segment that may not be expanded. -/
theorem Closed.walk_eq_none_iff {s : Schema} (hs : s.Closed) {r : Resource}
    (hr : r.Fits s.resources) {path : List String} : s.walk r path = none ↔
      ∃ before segment after last, path = before ++ segment :: after ∧
        s.walk r before = some last ∧ last.allowedRelation? segment = none := by
  constructor
  · intro h
    induction path generalizing r with
    | nil => cases h
    | cons segment rest ih =>
      cases hrel : r.allowedRelation? segment with
      | none => exact ⟨[], segment, rest, r, rfl, rfl, hrel⟩
      | some relation =>
        obtain ⟨-, target, ht, -⟩ := hr.joined _ _ (Resource.get?_of_allowedRelation? hrel)
        rw [walk_cons hrel ht] at h
        obtain ⟨before, stopped, after, last, rfl, hwalk, hlast⟩ := ih (hs.fits _ _ ht) h
        exact ⟨segment :: before, stopped, after, last, rfl, (walk_cons hrel ht _).trans hwalk,
          hlast⟩
  · rintro ⟨before, segment, after, last, rfl, hwalk, hlast⟩
    rw [walk_append hwalk, walk, hlast]

/-- In a closed schema a path fails to resolve only where its root is missing or a segment may not
be expanded. -/
theorem Closed.resolve_eq_error_iff {s : Schema} (hs : s.Closed) {param root : String}
    {path : List String} {e : Rejection} : s.resolve param root path = .error e ↔
      e = .notFound param (Text.join "/" (root :: path)) ∧
        (s.get? root = none ∨ ∃ before segment after last, path = before ++ segment :: after ∧
          s.resolve param root before = .ok last ∧ last.allowedRelation? segment = none) := by
  cases hroot : s.get? root with
  | none => simp [resolve, hroot, eq_comm]
  | some r =>
    simp only [resolve_eq_ok_iff_walk hroot, reduceCtorEq, false_or,
      ← hs.walk_eq_none_iff (hs.fits _ _ hroot)]
    rw [resolve, hroot, Option.bind_some]
    cases s.walk r path with
    | none => simp [eq_comm]
    | some last => simp

/-! ## Accepted lists -/

/-- **A list of resources makes a schema exactly when their names are distinct and each fits among
them, in whatever order they stand.** The schema holds the resources of the list, and resolving a
path in it fails only where the root is missing or a segment may not be expanded. -/
theorem build_accepts :
    (∀ rs, (∃ s, build rs = .ok s) ↔
      (rs.map (·.name)).Nodup ∧ ∀ r ∈ rs, r.Fits (byName rs)) ∧
    (∀ rs rs', (rs.map (·.name)).Nodup → rs.Perm rs' → build rs = build rs') ∧
    ∀ rs s, build rs = .ok s →
      (∀ name r, s.get? name = some r ↔ r ∈ rs ∧ r.name = name) ∧
      ∀ param root path e, s.resolve param root path = .error e ↔
        e = .notFound param (Text.join "/" (root :: path)) ∧
          (s.get? root = none ∨ ∃ before segment after last, path = before ++ segment :: after ∧
            s.resolve param root before = .ok last ∧ last.allowedRelation? segment = none) := by
  refine ⟨fun rs => ⟨?_, ?_⟩, fun rs rs' => build_eq_of_perm, fun rs s h => ⟨?_, ?_⟩⟩
  · rintro ⟨s, h⟩
    exact (build_eq_ok_iff_byName.1 h).1
  · intro h
    exact ⟨⟨byName rs⟩, build_eq_ok_iff_byName.2 ⟨h, rfl⟩⟩
  · obtain ⟨⟨hnodup, -⟩, hs⟩ := build_eq_ok_iff_byName.1 h
    intro name r
    rw [get?, hs]
    exact get?_byName hnodup name r
  · exact fun param root path e => (closed_of_build h).resolve_eq_error_iff

/-- Members of a club, each with a mentor among them. -/
def members : Resource :=
  { Resource.ofName "members" with
    relations := Dict.ofList [("club", ⟨.belongsTo, "clubs", "club_id", "id"⟩),
      ("mentor", ⟨.belongsTo, "members", "mentor_id", "id"⟩)] }

/-- Clubs, whose members may not be expanded. -/
def clubs : Resource :=
  { Resource.ofName "clubs" with
    relations := Dict.ofList [("members", ⟨.hasMany, "members", "id", "club_id"⟩)]
    relationList := some (NameSet.ofList []) }

theorem build_accepts_members : ∃ s, build [members, clubs] = .ok s ∧
    (∀ r ∈ [members, clubs], r.Fits (byName [members, clubs])) ∧
    build [clubs, members] = .ok s ∧
    s.resolve "$expand" "members" ["mentor", "club", "members"] =
      .error (.notFound "$expand" "members/mentor/club/members") := by
  obtain ⟨s, hs⟩ := exists_of_isOk (x := build [members, clubs]) (by decide +kernel)
  obtain ⟨hnodup, hfits⟩ := (build_accepts.1 [members, clubs]).1 ⟨s, hs⟩
  obtain ⟨hget, hresolve⟩ := build_accepts.2.2 [members, clubs] s hs
  have hmembers : s.get? "members" = some members := (hget _ _).2 ⟨by simp, rfl⟩
  have hclubs : s.get? "clubs" = some clubs := (hget _ _).2 ⟨by simp, rfl⟩
  have hmentor : members.allowedRelation? "mentor" =
      some ⟨.belongsTo, "members", "mentor_id", "id"⟩ := by decide
  have hclub : members.allowedRelation? "club" =
      some ⟨.belongsTo, "clubs", "club_id", "id"⟩ := by decide
  have hwalk : s.walk members ["mentor", "club"] = some clubs := by
    rw [walk_cons hmentor hmembers, walk_cons hclub hclubs, walk]
  have hpath : Text.join "/" ["members", "mentor", "club", "members"] =
      "members/mentor/club/members" := by decide
  refine ⟨s, hs, hfits, ?_, (hresolve _ _ _ _).2 ⟨by rw [hpath], .inr ?_⟩⟩
  · rw [← hs]
    exact build_accepts.2.1 _ _ (by decide) (List.Perm.swap members clubs [])
  · exact ⟨["mentor", "club"], "members", [], clubs, rfl,
      resolve_eq_ok.2 ⟨members, hmembers, hwalk⟩, by decide⟩

end Schema

end RequestQuery
