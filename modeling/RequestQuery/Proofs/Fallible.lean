/-!
# Computations that may fail

What the success of a computation in `Except` says about the computations that it is made of.
Stages that run one after the other are taken apart by `bind_eq_ok`, loops over a list by
`forM_eq_ok`, `mem_of_mapM` and, with what each step keeps, `foldlM_induct`. What a computation can
fail with (`FailsWith`) is found from its stages.
-/

namespace RequestQuery.Fallible

variable {ε ε' α β : Type}

theorem bind_eq_ok {x : Except ε α} {f : α → Except ε β} {b : β} :
    (x >>= f) = .ok b ↔ ∃ a, x = .ok a ∧ f a = .ok b := by
  cases x with
  | error e => exact ⟨nofun, nofun⟩
  | ok a =>
    refine ⟨fun h => ⟨a, rfl, h⟩, ?_⟩
    rintro ⟨a', ha, h⟩
    cases ha
    exact h

/-- A computation in two stages fails in the first or in the second one. -/
theorem bind_eq_error {x : Except ε α} {f : α → Except ε β} {e : ε} :
    (x >>= f) = .error e ↔ x = .error e ∨ ∃ a, x = .ok a ∧ f a = .error e := by
  cases x with
  | error e' =>
    refine ⟨fun h => .inl (congrArg _ (Except.error.inj h)), ?_⟩
    rintro (h | ⟨a, ha, -⟩)
    · exact congrArg _ (Except.error.inj h)
    · cases ha
  | ok a =>
    refine ⟨fun h => .inr ⟨a, rfl, h⟩, ?_⟩
    rintro (h | ⟨a', ha, h⟩)
    · cases h
    · cases ha
      exact h

/-- A check before a computation: both succeed. -/
theorem check_bind_eq_ok {x : Except ε Unit} {f : Unit → Except ε β} {b : β} :
    (x >>= f) = .ok b ↔ x = .ok () ∧ f () = .ok b := by
  rw [bind_eq_ok]
  exact ⟨fun ⟨_, hx, h⟩ => ⟨hx, h⟩, fun ⟨hx, h⟩ => ⟨(), hx, h⟩⟩

/-- A refusal before a computation: there was no reason for it. -/
theorem guard_bind_eq_ok {p : Prop} [Decidable p] {e : ε} {f : Unit → Except ε β} {b : β} :
    (if p then Except.error e >>= f else f ()) = .ok b ↔ ¬ p ∧ f () = .ok b := by
  by_cases hp : p
  · rw [if_pos hp]
    exact ⟨nofun, fun h => absurd hp h.1⟩
  · rw [if_neg hp]
    exact ⟨fun h => ⟨hp, h⟩, fun h => h.2⟩

theorem map_eq_ok {f : α → β} {x : Except ε α} {b : β} :
    (f <$> x) = .ok b ↔ ∃ a, x = .ok a ∧ f a = b := by
  cases x with
  | error e => exact ⟨nofun, nofun⟩
  | ok a =>
    refine ⟨fun h => ⟨a, rfl, Except.ok.inj h⟩, ?_⟩
    rintro ⟨a', ha, rfl⟩
    cases ha
    rfl

theorem pure_eq_ok {a b : α} : (pure a : Except ε α) = .ok b ↔ a = b :=
  ⟨Except.ok.inj, congrArg _⟩

theorem exists_of_isOk {x : Except ε α} (h : x.isOk = true) : ∃ a, x = .ok a := by
  cases x with
  | error e => cases h
  | ok a => exact ⟨a, rfl⟩

theorem toOption_eq_some {x : Except ε α} {a : α} : x.toOption = some a ↔ x = .ok a := by
  cases x with
  | error e => exact ⟨nofun, nofun⟩
  | ok b => exact ⟨fun h => congrArg _ (Option.some.inj h), fun h => congrArg _ (Except.ok.inj h)⟩

theorem mapError_eq_ok {g : ε → ε'} {x : Except ε α} {a : α} :
    x.mapError g = .ok a ↔ x = .ok a := by
  cases x with
  | error e => exact ⟨nofun, nofun⟩
  | ok b => exact ⟨fun h => congrArg _ (Except.ok.inj h), fun h => congrArg _ (Except.ok.inj h)⟩

theorem mapError_eq_error {g : ε → ε'} {x : Except ε α} {e' : ε'} :
    x.mapError g = .error e' ↔ ∃ e, x = .error e ∧ g e = e' := by
  cases x with
  | ok a => exact ⟨nofun, nofun⟩
  | error e =>
    refine ⟨fun h => ⟨e, rfl, Except.error.inj h⟩, ?_⟩
    rintro ⟨e₁, he, rfl⟩
    cases he
    rfl

/-- A check of every element succeeds when each of them passes it. -/
theorem forM_eq_ok {f : α → Except ε Unit} {xs : List α} :
    xs.forM f = .ok () ↔ ∀ x ∈ xs, f x = .ok () := by
  induction xs with
  | nil => exact ⟨fun _ => nofun, fun _ => rfl⟩
  | cons x xs ih =>
    rw [List.forM_eq_forM] at ih ⊢
    rw [List.forM_cons, check_bind_eq_ok, List.forall_mem_cons, ih]

/-- Elements made one by one come from the elements of the list. -/
theorem mem_of_mapM {f : α → Except ε β} {xs : List α} {ys : List β} (h : xs.mapM f = .ok ys)
    {y : β} (hy : y ∈ ys) : ∃ x ∈ xs, f x = .ok y := by
  induction xs generalizing ys with
  | nil =>
    rw [List.mapM_nil, pure_eq_ok] at h
    subst h
    cases hy
  | cons x xs ih =>
    rw [List.mapM_cons] at h
    obtain ⟨z, hz, h⟩ := bind_eq_ok.1 h
    obtain ⟨zs, hzs, h⟩ := bind_eq_ok.1 h
    obtain rfl := pure_eq_ok.1 h
    rcases List.mem_cons.1 hy with rfl | hy
    · exact ⟨x, List.mem_cons_self, hz⟩
    · obtain ⟨x', hx', h'⟩ := ih hzs hy
      exact ⟨x', List.mem_cons_of_mem _ hx', h'⟩

/-- Making elements one by one succeeds when each of them can be made. -/
theorem exists_mapM_eq_ok {f : α → Except ε β} {xs : List α}
    (h : ∀ x ∈ xs, ∃ y, f x = .ok y) : ∃ ys, xs.mapM f = .ok ys := by
  induction xs with
  | nil => exact ⟨[], rfl⟩
  | cons x xs ih =>
    obtain ⟨y, hy⟩ := h x List.mem_cons_self
    obtain ⟨ys, hys⟩ := ih fun x' hx' => h x' (List.mem_cons_of_mem _ hx')
    exact ⟨y :: ys, by rw [List.mapM_cons, hy, hys]; rfl⟩

/-- Making elements one by one succeeds when each of them can be made; `g` says what each is. -/
theorem mapM_eq_ok_iff {f : α → Except ε β} {g : α → β} (hg : ∀ x y, f x = .ok y → y = g x)
    {xs : List α} {ys : List β} :
    xs.mapM f = .ok ys ↔ ys = xs.map g ∧ ∀ x ∈ xs, f x = .ok (g x) := by
  induction xs generalizing ys with
  | nil =>
    rw [List.mapM_nil, pure_eq_ok]
    exact ⟨fun h => ⟨h.symm, nofun⟩, fun h => h.1.symm⟩
  | cons x xs ih =>
    rw [List.mapM_cons, List.forall_mem_cons, List.map_cons]
    constructor
    · intro h
      obtain ⟨y, hy, h⟩ := bind_eq_ok.1 h
      obtain ⟨rest, hrest, h⟩ := bind_eq_ok.1 h
      obtain rfl := pure_eq_ok.1 h
      obtain ⟨rfl, hxs⟩ := ih.1 hrest
      obtain rfl := hg x y hy
      exact ⟨rfl, hy, hxs⟩
    · rintro ⟨rfl, hx, hxs⟩
      rw [hx, ih.2 ⟨rfl, hxs⟩]
      rfl

/-- Making elements one by one fails where one of them cannot be made. -/
theorem exists_of_mapM_eq_error {f : α → Except ε β} {xs : List α} {e : ε}
    (h : xs.mapM f = .error e) : ∃ x ∈ xs, f x = .error e := by
  induction xs with
  | nil => cases h
  | cons x xs ih =>
    rw [List.mapM_cons] at h
    cases hx : f x with
    | error e' =>
      rw [hx] at h
      cases h
      exact ⟨x, List.mem_cons_self, hx⟩
    | ok y =>
      cases hxs : xs.mapM f with
      | error e' =>
        rw [hx, hxs] at h
        cases h
        obtain ⟨x', hmem, hx'⟩ := ih hxs
        exact ⟨x', List.mem_cons_of_mem _ hmem, hx'⟩
      | ok ys =>
        rw [hx, hxs] at h
        cases h

/-- What holds at the beginning of a loop, and after every step if it held before, holds at the
end. -/
theorem foldlM_induct {f : β → α → Except ε β} {xs : List α} (motive : β → Prop)
    (step : ∀ b x b', x ∈ xs → motive b → f b x = .ok b' → motive b') {b b' : β} (hb : motive b)
    (h : xs.foldlM f b = .ok b') : motive b' := by
  induction xs generalizing b with
  | nil =>
    rw [List.foldlM_nil, pure_eq_ok] at h
    exact h ▸ hb
  | cons x xs ih =>
    rw [List.foldlM_cons] at h
    obtain ⟨c, hc, h⟩ := bind_eq_ok.1 h
    exact ih (fun b y b' hy => step b y b' (List.mem_cons_of_mem _ hy))
      (step b x c List.mem_cons_self hb hc) h

/-- What grows by at most `k` in a step grows by at most `k` for each element in a loop. -/
theorem foldlM_size_le {f : β → α → Except ε β} {xs : List α} (motive : β → Prop) (size : β → Nat)
    (k : Nat) (step : ∀ b x b', x ∈ xs → motive b → f b x = .ok b' →
      motive b' ∧ size b' ≤ size b + k) {b b' : β} (hb : motive b)
    (h : xs.foldlM f b = .ok b') : size b' ≤ size b + xs.length * k := by
  induction xs generalizing b with
  | nil =>
    rw [List.foldlM_nil, pure_eq_ok] at h
    exact h ▸ Nat.le_add_right _ _
  | cons x xs ih =>
    rw [List.foldlM_cons] at h
    obtain ⟨c, hc, h⟩ := bind_eq_ok.1 h
    obtain ⟨hmotive, hsize⟩ := step b x c List.mem_cons_self hb hc
    have hrest := ih (fun b y b' hy => step b y b' (List.mem_cons_of_mem _ hy)) hmotive h
    rw [List.length_cons, Nat.succ_mul]
    omega

/-- What a step establishes for its own element, and every step keeps for the others, holds of all
elements at the end. -/
theorem forall_of_foldlM {f : β → α → Except ε β} {xs : List α} {P : β → α → Prop}
    (own : ∀ b x b', f b x = .ok b' → P b' x)
    (keep : ∀ b x b' y, f b x = .ok b' → P b y → P b' y) {b b' : β}
    (h : xs.foldlM f b = .ok b') : ∀ x ∈ xs, P b' x := by
  induction xs generalizing b with
  | nil => exact nofun
  | cons x xs ih =>
    rw [List.foldlM_cons] at h
    obtain ⟨c, hc, h⟩ := bind_eq_ok.1 h
    have hlast : P b' x :=
      foldlM_induct (P · x) (fun _ _ _ _ hx hstep => keep _ _ _ _ hstep hx) (own _ _ _ hc) h
    exact List.forall_mem_cons.2 ⟨hlast, ih h⟩

/-- A loop fails where its first failing step does. -/
theorem foldlM_eq_error {f : β → α → Except ε β} {before : List α} {x : α} {b c : β} {e : ε}
    (hbefore : before.foldlM f b = .ok c) (hx : f c x = .error e) (after : List α) :
    (before ++ x :: after).foldlM f b = .error e := by
  rw [List.foldlM_append, hbefore]
  change List.foldlM f c (x :: after) = .error e
  rw [List.foldlM_cons, hx]
  rfl

/-- A loop whose steps all succeed succeeds. -/
theorem exists_foldlM_eq_ok {f : β → α → Except ε β} {xs : List α}
    (h : ∀ b, ∀ x ∈ xs, ∃ b', f b x = .ok b') (b : β) : ∃ b', xs.foldlM f b = .ok b' := by
  induction xs generalizing b with
  | nil => exact ⟨b, rfl⟩
  | cons x xs ih =>
    obtain ⟨c, hc⟩ := h b x List.mem_cons_self
    obtain ⟨b', hb'⟩ := ih (fun b y hy => h b y (List.mem_cons_of_mem _ hy)) c
    exact ⟨b', by rw [List.foldlM_cons, hc]; exact hb'⟩

/-! ## What a computation fails with -/

/-- Whatever the computation fails with has a property. -/
def FailsWith (P : ε → Prop) (x : Except ε α) : Prop := ∀ e, x = .error e → P e

namespace FailsWith

variable {P : ε → Prop}

theorem ok (a : α) : FailsWith P (.ok a) := nofun

theorem error {e : ε} (h : P e) : FailsWith P (.error e : Except ε α) := by
  rintro _ ⟨⟩
  exact h

theorem bind {x : Except ε α} {f : α → Except ε β} (hx : FailsWith P x)
    (hf : ∀ a, x = .ok a → FailsWith P (f a)) : FailsWith P (x >>= f) := by
  intro e h
  rcases bind_eq_error.1 h with h | ⟨a, ha, h⟩
  · exact hx e h
  · exact hf a ha e h

theorem map {x : Except ε α} (hx : FailsWith P x) (f : α → β) : FailsWith P (f <$> x) := by
  cases x with
  | error e =>
    rintro _ ⟨⟩
    exact hx e rfl
  | ok a => exact .ok _

theorem forM {f : α → Except ε Unit} {xs : List α} (hf : ∀ x, FailsWith P (f x)) :
    FailsWith P (xs.forM f) := by
  induction xs with
  | nil => exact .ok _
  | cons x xs ih => exact (hf x).bind fun _ _ => ih

theorem mapM {f : α → Except ε β} {xs : List α} (hf : ∀ x, FailsWith P (f x)) :
    FailsWith P (xs.mapM f) := by
  intro e h
  obtain ⟨x, -, hx⟩ := exists_of_mapM_eq_error h
  exact hf x e hx

end FailsWith

end RequestQuery.Fallible
