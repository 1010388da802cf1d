import Mathlib.Algebra.GroupWithZero.Nat
import RequestQuery.Proofs.ReadColumns

/-!
# The size of an expansion

A tree of branches shares the prefixes of its paths, so a path adds no more branches than it has
segments, and no deeper ones; a selected column adds none. What is counted is a weight of levels,
added up over the tree (`Branch.total`): one for each level counts the branches, the number of
selected columns counts these.

* `Branch.preorders`: the branches of a tree, each before those below it.
* `Branch.total`, `Branch.total_put`: the weight of a tree, and how it changes when a branch is put
  in its place; `Branch.total_addPath_le`, `Branch.total_select_le`: what a path and a column add.
* `Branch.Within`: nothing stands deeper than some number of levels.
* `Expansion.total_build_le`, `Expansion.within_build`: the bounds of an expansion that is built.
-/

namespace RequestQuery

open Fallible

namespace Branch

/-! ## Branches in pre-order -/

mutual

/-- A branch and the branches below it, each before those below it. -/
def preorder : Branch → List Branch
  | .mk level branches => .mk level branches :: preorders branches

/-- The branches at all depths, each before those below it and those beside it that follow. -/
def preorders : List Branch → List Branch
  | [] => []
  | b :: rest => b.preorder ++ preorders rest

end

/-! ## Weights -/

/-- The weights of all levels of a tree, added up. -/
def total (w : Level → Nat) (branches : List Branch) : Nat :=
  ((preorders branches).map fun b => w b.level).sum

variable {w : Level → Nat} {branches : List Branch}

@[simp] theorem total_nil (w : Level → Nat) : total w [] = 0 := rfl

theorem total_cons (w : Level → Nat) (b : Branch) (rest : List Branch) :
    total w (b :: rest) = w b.level + total w b.branches + total w rest := by
  cases b with
  | mk level below =>
    rw [total, preorders, preorder, List.map_append, List.sum_append, List.map_cons, List.sum_cons]
    rfl

theorem total_singleton (w : Level → Nat) (b : Branch) :
    total w [b] = w b.level + total w b.branches := by
  rw [total_cons, total_nil, Nat.add_zero]

theorem total_one (branches : List Branch) :
    total (fun _ => 1) branches = (preorders branches).length := by
  rw [total, List.map_const', List.sum_replicate_nat, Nat.mul_one]

theorem find?_eq_none_of_lt {name : String} (h : ∀ b ∈ branches, name < b.name) :
    find? name branches = none := by
  cases hf : find? name branches with
  | none => rfl
  | some b => exact absurd (name_of_find? hf ▸ h b (mem_of_find? hf)) (String.lt_irrefl _)

/-- **A branch that is put in its place adds its weight, less that of the one that it replaces.** -/
theorem total_put (w : Level → Nat) (b : Branch)
    (h : branches.Pairwise fun a b => a.name < b.name) :
    total w (put b branches) + total w (find? b.name branches).toList =
      total w branches + total w [b] := by
  induction branches with
  | nil =>
    rw [total_nil, Nat.zero_add]
    rfl
  | cons other rest ih =>
    obtain ⟨hother, hrest⟩ := List.pairwise_cons.1 h
    rw [put, find?_cons]
    split
    · next hlt =>
      have hne : ¬ other.name = b.name := fun he => String.lt_irrefl _ (he ▸ hlt)
      have hnone : find? b.name rest = none :=
        find?_eq_none_of_lt fun c hc => String.lt_trans hlt (hother c hc)
      rw [if_neg hne, hnone, total_cons w b, total_singleton]
      simp only [Option.toList_none, total_nil]
      omega
    · split
      · next hname =>
        rw [if_pos hname.symm]
        simp only [Option.toList_some, total_cons, total_nil]
        omega
      · next hname =>
        have hrest := ih hrest
        rw [if_neg (Ne.symm hname), total_cons w other, total_cons w other]
        omega

/-- A branch that takes the place of the one with its name. -/
theorem total_put_of_find? (w : Level → Nat) {segment : String} {b : Branch}
    (hf : find? segment branches = some b) (h : branches.Pairwise fun a b => a.name < b.name)
    (level : Level) (hname : level.name = segment) (below : List Branch) :
    total w (put (.mk level below) branches) + (w b.level + total w b.branches) =
      total w branches + (w level + total w below) := by
  have hput := total_put w (.mk level below) h
  have hname' : (mk level below).name = segment := hname
  rw [hname', hf, Option.toList_some, total_singleton, total_singleton] at hput
  exact hput

/-- A new branch. -/
theorem total_put_of_none (w : Level → Nat) {segment : String} (hf : find? segment branches = none)
    (h : branches.Pairwise fun a b => a.name < b.name) (level : Level)
    (hname : level.name = segment) (below : List Branch) :
    total w (put (.mk level below) branches) = total w branches + (w level + total w below) := by
  have hput := total_put w (.mk level below) h
  have hname' : (mk level below).name = segment := hname
  rw [hname', hf, Option.toList_none, total_nil, Nat.add_zero, total_singleton] at hput
  exact hput

/-- **A path adds no more than its segments**, each by the weight of a new level at most. -/
theorem total_addPath_le {k : Nat}
    (hw : ∀ name path relation target, w (.ofRelation name path relation target) ≤ k) {s : Schema}
    {limits : Limits} {path : String} {parent : Resource} {above segments : List String}
    {branches' : List Branch} (h : Ordered branches)
    (hadd : addPath s limits path parent above segments branches = .ok branches') :
    total w branches' ≤ total w branches + segments.length * k := by
  induction segments generalizing parent above branches branches' with
  | nil =>
    cases hadd
    exact Nat.le_add_right _ _
  | cons segment rest ih =>
    obtain ⟨relation, target, b, below, -, -, hb, hbelow, rfl⟩ := addPath_cons_eq_ok hadd
    have hle := ih (hb ▸ ordered_of_find?_getD h) hbelow
    have hnew := hw segment (Text.join "/" (above ++ [segment])) relation target
    rw [List.length_cons, Nat.succ_mul]
    cases hf : find? segment branches with
    | none =>
      rw [hf, Option.getD_none] at hb
      subst hb
      have hput := total_put_of_none w hf h.pairwise
        (.ofRelation segment (Text.join "/" (above ++ [segment])) relation target) rfl below
      rw [Branch.branches, total_nil] at hle
      rw [Branch.level]
      omega
    | some found =>
      rw [hf, Option.getD_some] at hb
      subst hb
      have hput := total_put_of_find? w hf h.pairwise b.level (name_of_find? hf) below
      omega

/-- **A selected column adds no more than it adds to its level.** -/
theorem total_select_le {k : Nat} {column : String}
    (hw : ∀ l : Level, w (l.select column) ≤ w l + k) (segments : List String)
    (h : Ordered branches) :
    total w (select column segments branches) ≤ total w branches + k := by
  induction segments generalizing branches with
  | nil => exact Nat.le_add_right _ _
  | cons segment rest ih =>
    rw [select]
    cases hf : find? segment branches with
    | none => exact Nat.le_add_right _ _
    | some b =>
      have hname : b.level.name = segment := name_of_find? hf
      cases rest with
      | nil =>
        have hput := total_put_of_find? w hf h.pairwise (b.level.select column) hname b.branches
        have hlevel := hw b.level
        change total w (put (.mk (b.level.select column) b.branches) branches) ≤ _
        omega
      | cons next rest =>
        have hput := total_put_of_find? w hf h.pairwise b.level hname
          (select column (next :: rest) b.branches)
        have hbelow := ih (h.inside (mem_of_find? hf))
        change total w (put (.mk b.level (select column (next :: rest) b.branches)) branches) ≤ _
        omega

/-! ## Depth -/

/-- Nothing stands deeper than `n` levels. -/
def Within : Nat → List Branch → Prop
  | 0, branches => branches = []
  | n + 1, branches => ∀ b ∈ branches, Within n b.branches

/-- The path to a branch has no more segments than there are levels. -/
theorem Within.length_lt {n : Nat} {above : List String} {b : Branch} (h : Within n branches)
    (hat : At branches above b) : above.length < n := by
  induction hat generalizing n with
  | here hb =>
    cases n with
    | zero => exact absurd hb (h ▸ List.not_mem_nil)
    | succ n => exact Nat.succ_pos n
  | inside hb _ ih =>
    cases n with
    | zero => exact absurd hb (h ▸ List.not_mem_nil)
    | succ n => exact Nat.succ_lt_succ (ih (h _ hb))

theorem within_nil (n : Nat) : Within n [] := by
  cases n with
  | zero => rfl
  | succ n => exact nofun

theorem within_put {n : Nat} {b : Branch} (hb : Within n b.branches)
    (h : Within (n + 1) branches) : Within (n + 1) (put b branches) := by
  intro c hc
  rcases mem_put hc with rfl | hc
  · exact hb
  · exact h c hc

/-- A path reaches no deeper than its segments. -/
theorem within_addPath {n : Nat} {s : Schema} {limits : Limits} {path : String}
    {parent : Resource} {above segments : List String} {branches' : List Branch}
    (h : Within n branches) (hlength : segments.length ≤ n)
    (hadd : addPath s limits path parent above segments branches = .ok branches') :
    Within n branches' := by
  induction segments generalizing n parent above branches branches' with
  | nil =>
    cases hadd
    exact h
  | cons segment rest ih =>
    obtain ⟨m, rfl⟩ : ∃ m, n = m + 1 := Nat.exists_eq_add_one.2 (by
      rw [List.length_cons] at hlength
      omega)
    obtain ⟨relation, target, b, below, -, -, rfl, hbelow, rfl⟩ := addPath_cons_eq_ok hadd
    refine within_put (ih ?_ (Nat.le_of_succ_le_succ hlength) hbelow) h
    cases hf : find? segment branches with
    | none => exact within_nil m
    | some b => exact h b (mem_of_find? hf)

theorem within_select {n : Nat} (column : String) (segments : List String)
    (h : Within n branches) : Within n (select column segments branches) := by
  induction segments generalizing n branches with
  | nil => exact h
  | cons segment rest ih =>
    rw [select]
    cases hf : find? segment branches with
    | none => exact h
    | some b =>
      cases n with
      | zero =>
        obtain rfl : branches = [] := h
        cases hf
      | succ n =>
        have hb : Within n b.branches := h b (mem_of_find? hf)
        cases rest with
        | nil => exact within_put hb h
        | cons next rest => exact within_put (ih hb) h

end Branch

/-! ## Expansions -/

namespace Expansion

variable {s : Schema} {root : String} {paths : List String} {limits : Limits} {e : Expansion}

/-- **An expansion weighs no more than its paths could**, were none of their prefixes shared. -/
theorem total_build_le {w : Level → Nat} {k : Nat}
    (hw : ∀ name path relation target, w (.ofRelation name path relation target) ≤ k)
    (h : build s root paths limits = .ok e) :
    Branch.total w e.branches ≤ limits.maxRelations * (limits.maxRecursionDepth * k) := by
  obtain ⟨hform, resource, -, hfold⟩ := build_eq_ok.1 h
  have hsize := foldlM_size_le Branch.Ordered (Branch.total w) (limits.maxRecursionDepth * k)
    (fun branches path branches' hpath ho hadd => ⟨Branch.ordered_addPath ho hadd,
      Nat.le_trans (Branch.total_addPath_le hw ho hadd)
        (Nat.add_le_add_left (Nat.mul_le_mul_right k (hform.short path hpath)) _)⟩)
    Branch.ordered_nil hfold
  rw [Branch.total_nil, Nat.zero_add] at hsize
  exact Nat.le_trans hsize (Nat.mul_le_mul_right _ hform.few)

/-- **An expansion is no deeper than its paths may be.** -/
theorem within_build (h : build s root paths limits = .ok e) :
    Branch.Within limits.maxRecursionDepth e.branches := by
  obtain ⟨hform, resource, -, hfold⟩ := build_eq_ok.1 h
  exact foldlM_induct (Branch.Within limits.maxRecursionDepth)
    (fun branches path branches' hpath hwithin hadd =>
      Branch.within_addPath hwithin (hform.short path hpath) hadd)
    (Branch.within_nil _) hfold

end Expansion

end RequestQuery
