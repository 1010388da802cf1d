import RequestQuery.Loading

/-!
# Runs of loads

How a load runs on a session: what it gives and the session after it. A sequence of loads runs one
after the other and stops at the first failure (`Load.run_bind`). `Load.KeepsNames` says that a load
never fails by a name that is no identifier, and `Load.Gives` that its results all have a property;
sequences preserve both.
-/

namespace RequestQuery.Load

variable {σ ε α β : Type}

theorem run_bind (m : Load σ ε α) (f : α → Load σ ε β) (session : Session σ) :
    (m >>= f).run session = match m.run session with
      | (.ok a, after) => (f a).run after
      | (.error fault, after) => (.error fault, after) := by
  have step (x : StateM (Session σ) (Except (LoadFault ε) α))
      (g : Except (LoadFault ε) α → StateM (Session σ) (Except (LoadFault ε) β)) :
      (x >>= g) session = g (x session).1 (x session).2 := rfl
  rw [ExceptT.run_bind, step]
  cases m.run session with
  | mk result after => cases result <;> rfl

/-- A statement is put to the database, and noted whatever it answers. -/
theorem run_ask (db : Database σ ε) (statement : Sql.Statement) (session : Session σ) :
    (ask db statement).run session =
      ((db.answer statement session.state).1.mapError .database,
        ⟨(db.answer statement session.state).2, session.asked ++ [statement]⟩) := by
  have hget : (get : Load σ ε (Session σ)).run session = (.ok session, session) := rfl
  have hset (s' : Session σ) : (set s' : Load σ ε Unit).run session = (.ok (), s') := rfl
  unfold ask
  rw [run_bind, hget]
  simp only
  rw [run_bind, hset]
  cases (db.answer statement session.state).1 <;> rfl

/-- A load that never fails by a name that is no identifier. -/
def KeepsNames (m : Load σ ε α) : Prop :=
  ∀ session bad, (m.run session).1 ≠ .error (.badName bad)

namespace KeepsNames

theorem pure (a : α) : KeepsNames (Pure.pure a : Load σ ε α) := fun _ _ => nofun

theorem bind {m : Load σ ε α} {f : α → Load σ ε β} (hm : KeepsNames m)
    (hf : ∀ a, KeepsNames (f a)) : KeepsNames (m >>= f) := by
  intro session bad
  rw [run_bind]
  have hm' := hm session
  cases hr : m.run session with
  | mk result after =>
    cases result with
    | ok a => exact hf a after bad
    | error fault =>
      rw [hr] at hm'
      exact fun h => hm' bad (congrArg Except.error (Except.error.inj h))

theorem map (f : α → β) {m : Load σ ε α} (hm : KeepsNames m) : KeepsNames (f <$> m) := by
  rw [map_eq_pure_bind]
  exact bind hm fun a => pure (f a)

/-- A database fails in its own way. -/
theorem ask (db : Database σ ε) (statement : Sql.Statement) : KeepsNames (ask db statement) := by
  intro session bad
  rw [run_ask]
  cases (db.answer statement session.state).1 <;> exact nofun

theorem count (db : Database σ ε) (q : Sql.Query) : KeepsNames (Load.count db q) := by
  refine bind (ask db q.count) fun rows => ?_
  simp only
  split
  · exact pure _
  · exact fun _ _ => nofun

end KeepsNames

/-- A load whose results all have a property. -/
def Gives (P : α → Prop) (m : Load σ ε α) : Prop :=
  ∀ session a after, m.run session = (.ok a, after) → P a

namespace Gives

variable {P : α → Prop} {Q : β → Prop}

theorem pure {a : α} (h : P a) : Gives P (Pure.pure a : Load σ ε α) := by
  intro session b after hrun
  cases hrun
  exact h

theorem any (m : Load σ ε α) : Gives (fun _ => True) m := fun _ _ _ _ => trivial

theorem bind {m : Load σ ε α} {f : α → Load σ ε β} (hm : Gives P m)
    (hf : ∀ a, P a → Gives Q (f a)) : Gives Q (m >>= f) := by
  intro session b after hrun
  rw [run_bind] at hrun
  cases hr : m.run session with
  | mk result middle =>
    rw [hr] at hrun
    cases result with
    | ok a => exact hf a (hm _ _ _ hr) _ _ _ hrun
    | error fault => cases hrun

/-- What follows a load matters only for the results that the load gives. -/
theorem bind_congr {m : Load σ ε α} {f g : α → Load σ ε β} (hm : Gives P m)
    (h : ∀ a, P a → f a = g a) : m >>= f = m >>= g := by
  refine ExceptT.ext (funext fun session => ?_)
  rw [run_bind, run_bind]
  have hm' := hm session
  cases hr : m.run session with
  | mk result after =>
    cases result with
    | ok a => exact congrArg (fun l : Load σ ε β => l.run after) (h a (hm' a after hr))
    | error fault => rfl

end Gives

end RequestQuery.Load
