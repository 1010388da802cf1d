import RequestQuery.Proofs.KeptColumns
import RequestQuery.Proofs.TreeSize

/-!
# The number of statements

How many statements a load asks at most, whatever the database answers. The bounds of the parts of a
load add up, so one for the root, one for each branch and one for the count bound those of a plan
(`Plan.asksAtMost_run`).
-/

namespace RequestQuery

variable {σ ε α β : Type}

/-- A load that asks no more than `n` statements, on every session. -/
def Load.AsksAtMost (n : Nat) (m : Load σ ε α) : Prop :=
  ∀ session, (m.run session).2.asked.length ≤ session.asked.length + n

namespace Load.AsksAtMost

variable {n k : Nat}

theorem pure (a : α) : AsksAtMost 0 (Pure.pure a : Load σ ε α) := fun _ => Nat.le_refl _

theorem mono {m : Load σ ε α} (h : AsksAtMost n m) (hn : n ≤ k) : AsksAtMost k m :=
  fun session => Nat.le_trans (h session) (Nat.add_le_add_left hn _)

/-- What the parts of a sequence ask adds up. -/
theorem bind {m : Load σ ε α} {f : α → Load σ ε β} (hm : AsksAtMost n m)
    (hf : ∀ a, AsksAtMost k (f a)) : AsksAtMost (n + k) (m >>= f) := by
  intro session
  have hfirst := hm session
  rw [run_bind]
  cases hrun : m.run session with
  | mk result after =>
    rw [hrun] at hfirst
    cases result with
    | ok a => exact Nat.add_assoc _ _ _ ▸ Nat.le_trans (hf a after) (Nat.add_le_add_right hfirst k)
    | error fault => exact Nat.le_trans hfirst (Nat.add_le_add_left (Nat.le_add_right n k) _)

theorem map (f : α → β) {m : Load σ ε α} (hm : AsksAtMost n m) : AsksAtMost n (f <$> m) := by
  rw [map_eq_pure_bind]
  exact hm.bind fun a => pure (f a)

theorem ofNames (x : Except Sql.BadName α) : AsksAtMost 0 (Load.ofNames x : Load σ ε α) := by
  cases x with
  | ok a => exact pure a
  | error name => exact fun _ => Nat.le_refl _

theorem ask (db : Database σ ε) (statement : Sql.Statement) :
    AsksAtMost 1 (Load.ask db statement) := by
  intro session
  rw [run_ask, List.length_append]
  exact Nat.le_refl _

theorem count (db : Database σ ε) (q : Sql.Query) : AsksAtMost 1 (Load.count db q) := by
  refine bind (k := 0) (ask db q.count) fun rows => ?_
  simp only
  split
  · exact pure _
  · exact fun _ => Nat.le_refl _

end Load.AsksAtMost

/-! ## Branches and plans -/

namespace Branch

variable (db : Database σ ε) (d : Sql.Dialect)

theorem asksAtMost_rows (b : Branch) (parents : List Row) :
    (b.rows db d parents).AsksAtMost 1 := by
  unfold rows
  split
  · exact (Load.AsksAtMost.pure _).mono (Nat.zero_le _)
  · exact .bind (n := 0) (k := 1) (.ofNames _) fun statement => .ask db statement

mutual

/-- A branch asks one statement at most, and so do those below it. -/
theorem asksAtMost_load : (b : Branch) → (parents : List Row) →
    (b.load db d parents).AsksAtMost (preorder b).length
  | .mk level branches, parents => by
    rw [load, preorder, List.length_cons, Nat.add_comm]
    refine .bind (asksAtMost_rows db d (.mk level branches) parents) fun found => ?_
    exact .bind (k := 0) (asksAtMost_loadAll branches found) fun complete => .pure _

theorem asksAtMost_loadAll : (branches : List Branch) → (parents : List Row) →
    (loadAll db d branches parents).AsksAtMost (preorders branches).length
  | [], parents => by
    rw [loadAll]
    exact .pure parents
  | b :: rest, parents => by
    rw [loadAll, preorders, List.length_append]
    exact .bind (asksAtMost_load b parents) fun rows => asksAtMost_loadAll rest rows

end

end Branch

namespace Plan

variable (db : Database σ ε) (p : Plan) (query : Sql.Query)

theorem run_eq_countOf : p.run db query = do
    let applied ← Load.ofNames (p.applyTo query)
    let found ← Load.ask db applied.select
    let rows ← Branch.loadAll db query.dialect p.branches found
    let count ← p.countOf db applied
    return Envelope.of p.shape rows count := by
  unfold run countOf branches
  cases p.shape <;> cases p.wantCount <;>
    simp only [Envelope.of, Bool.false_eq_true, if_true, if_false]

theorem asksAtMost_countOf (applied : Sql.Query) :
    (p.countOf db applied : Load σ ε (Option UInt64)).AsksAtMost 1 := by
  unfold countOf
  split
  · exact .map some (.count db applied)
  · exact (Load.AsksAtMost.pure none).mono (Nat.zero_le _)

/-- **A run of a plan asks one statement for the root, at most one for each branch, and at most one
for the count**, whatever the database answers. -/
theorem asksAtMost_run :
    (p.run db query).AsksAtMost (2 + (Branch.preorders p.branches).length) := by
  have hrun : (p.run db query).AsksAtMost
      (0 + (1 + ((Branch.preorders p.branches).length + (1 + 0)))) := by
    rw [run_eq_countOf]
    refine .bind (.ofNames _) fun applied => .bind (.ask db _) fun found => ?_
    refine .bind (Branch.asksAtMost_loadAll db query.dialect p.branches found) fun rows => ?_
    exact .bind (asksAtMost_countOf db p applied) fun count => .pure _
  exact hrun.mono (by omega)

end Plan

end RequestQuery
