import Mathlib.Data.List.Forall2
import RequestQuery.Proofs.BoundValues

/-!
# Statements that differ in their values only

The text of a statement does not depend on the values that it binds. Two values are alike under an
operator when both are null or neither is and, for membership, they list equally many elements;
conditions, queries and the steps of building a query are alike when they are the same up to values
that are alike. Alike conditions are written with the same lexemes and bind equally many values
(`Condition.alike_fragment`, by induction on the tree), so alike queries have the same texts, and
every step keeps queries alike or is refused in both (`Query.Step.related_applyTo`). From this, by
induction on the steps, `Query.related_build`: a whole sequence of steps cannot tell the values
apart.
-/

namespace RequestQuery.Fallible

/-- Two computations that give related results, or fail with the same error. -/
inductive Related {ε α β : Type} (R : α → β → Prop) : Except ε α → Except ε β → Prop
  | ok {a : α} {b : β} (h : R a b) : Related R (.ok a) (.ok b)
  | error (e : ε) : Related R (.error e) (.error e)

namespace Related

variable {ε α β γ δ : Type} {R : α → β → Prop} {S : γ → δ → Prop}

/-- The same computation gives related results when everything is related to itself. -/
theorem same {R : α → α → Prop} (h : ∀ a, R a a) (x : Except ε α) : Related R x x := by
  cases x with
  | error e => exact .error e
  | ok a => exact .ok (h a)

theorem bind {x : Except ε α} {y : Except ε β} {f : α → Except ε γ} {g : β → Except ε δ}
    (h : Related R x y) (hfg : ∀ a b, R a b → Related S (f a) (g b)) :
    Related S (x >>= f) (y >>= g) := by
  cases h with
  | error e => exact .error e
  | ok hab => exact hfg _ _ hab

/-- Loops whose steps keep what they build up related give related results. -/
theorem foldlM {σ τ : Type} {T : σ → τ → Prop} {f : α → σ → Except ε α} {g : β → τ → Except ε β}
    (step : ∀ a b s t, R a b → T s t → Related R (f a s) (g b t)) {ss : List σ} {ts : List τ}
    (hlists : List.Forall₂ T ss ts) {a : α} {b : β} (h : R a b) :
    Related R (ss.foldlM f a) (ts.foldlM g b) := by
  induction hlists generalizing a b with
  | nil => exact .ok h
  | cons hst _ ih =>
    rw [List.foldlM_cons, List.foldlM_cons]
    exact (step a b _ _ h hst).bind fun _ _ hab => ih hab

/-- What cannot tell related results apart gives the same of both. -/
theorem map_eq {x : Except ε α} {y : Except ε β} (h : Related R x y) {f : α → γ} {g : β → γ}
    (hfg : ∀ a b, R a b → f a = g b) : x.map f = y.map g := by
  cases h with
  | error e => rfl
  | ok hab => exact congrArg _ (hfg _ _ hab)

end Related

end RequestQuery.Fallible

namespace RequestQuery.Sql

open Fallible

/-! ## Fragments -/

/-- Fragments with the same lexemes, and equally many values. -/
structure Fragment.Alike (f g : Fragment) : Prop where
  lexemes : f.lexemes = g.lexemes
  params : f.params.length = g.params.length

namespace Fragment.Alike

theorem text_eq {f g : Fragment} (h : f.Alike g) (d : Dialect) : f.text d = g.text d := by
  rw [text, text, h.lexemes]

theorem parenthesize {f g : Fragment} (h : f.Alike g) : f.parenthesize.Alike g.parenthesize where
  lexemes := by rw [Fragment.parenthesize, Fragment.parenthesize, h.lexemes]
  params := h.params

theorem joinWith {fs gs : List Fragment} (h : List.Forall₂ Alike fs gs) (separator : Lexeme) :
    (Fragment.joinWith separator fs).Alike (Fragment.joinWith separator gs) := by
  have hlexemes : fs.map (·.lexemes) = gs.map (·.lexemes) := by
    induction h with
    | nil => rfl
    | cons hfg _ ih => rw [List.map_cons, List.map_cons, hfg.lexemes, ih]
  have hparams : (fs.flatMap (·.params)).length = (gs.flatMap (·.params)).length := by
    induction h with
    | nil => rfl
    | cons hfg _ ih =>
      rw [List.map_cons, List.map_cons, List.cons.injEq] at hlexemes
      rw [List.flatMap_cons, List.flatMap_cons, List.length_append, List.length_append,
        hfg.params, ih hlexemes.2]
  exact ⟨congrArg [separator].intercalate hlexemes, hparams⟩

theorem group {fs gs : List Fragment} (h : List.Forall₂ Alike fs gs) (separator : Lexeme)
    (empty : Bool) : (group separator empty fs).Alike (group separator empty gs) := by
  match h with
  | .nil => exact ⟨rfl, rfl⟩
  | .cons hfg .nil => exact hfg
  | .cons hfg (.cons hfg' hrest) =>
    exact (joinWith (.cons hfg (.cons hfg' hrest)) separator).parenthesize

end Fragment.Alike

/-! ## Values and conditions -/

/-- Values that an operator is written the same for. -/
structure Operator.Alike (op : Operator) (v w : Value) : Prop where
  /-- Both are null, or neither is. -/
  isNull : v.isNull = w.isNull
  /-- They list equally many elements to look a column up in. -/
  size : op = .member → (listed v).length = (listed w).length

/-- The same test of values that are alike. -/
structure Atom.Alike (a b : Atom) : Prop where
  column : a.column = b.column
  op : a.op = b.op
  value : a.op.Alike a.value b.value

/-- The same tree of tests of values that are alike. -/
inductive Condition.Alike : Condition → Condition → Prop
  | atom {a b : Atom} (h : a.Alike b) : Alike (.atom a) (.atom b)
  | all {cs ds : List Condition} (h : List.Forall₂ Alike cs ds) : Alike (.all cs) (.all ds)
  | any {cs ds : List Condition} (h : List.Forall₂ Alike cs ds) : Alike (.any cs) (.any ds)
  | not {c d : Condition} (h : Alike c d) : Alike (.not c) (.not d)

theorem Operator.Alike.refl (op : Operator) (v : Value) : op.Alike v v := ⟨rfl, fun _ => rfl⟩

theorem Atom.Alike.refl (a : Atom) : a.Alike a := ⟨rfl, rfl, .refl a.op a.value⟩

mutual

theorem Condition.Alike.refl : (c : Condition) → c.Alike c
  | .atom a => .atom (.refl a)
  | .all parts => .all (Condition.Alike.refl_parts parts)
  | .any parts => .any (Condition.Alike.refl_parts parts)
  | .not part => .not (Condition.Alike.refl part)

theorem Condition.Alike.refl_parts : (cs : List Condition) → List.Forall₂ Condition.Alike cs cs
  | [] => .nil
  | part :: rest => .cons (Condition.Alike.refl part) (Condition.Alike.refl_parts rest)

end

/-- A comparison with a value other than null is written with one placeholder. -/
theorem Atom.fragment_compare {v : Value} (hv : v.isNull = false) (d : Dialect) (next : Nat)
    (column : Identifier) (c : Comparison) : (Atom.mk column (.compare c) v).fragment d next =
      ⟨[.column column.text, .comparison c, .slot next], [v]⟩ := by
  cases v with
  | null => cases hv
  | bool b => cases c <;> rfl
  | int n => cases c <;> rfl
  | float x => cases c <;> rfl
  | text s => cases c <;> rfl
  | list items => cases c <;> rfl

/-- Membership in lists of the same length is written alike: with one placeholder, or with one for
each element. -/
theorem Dialect.alike_membership {vs ws : List Value} (h : vs.length = ws.length) (d : Dialect)
    (column : String) (first : Nat) :
    (d.membership column vs first).Alike (d.membership column ws first) := by
  cases d with
  | postgres => exact ⟨rfl, rfl⟩
  | sqlite => exact ⟨by rw [membership, membership, h], h⟩

/-- **Tests of values that are alike are written alike.** -/
theorem Atom.Alike.fragment {a b : Atom} (h : a.Alike b) (d : Dialect) (next : Nat) :
    (a.fragment d next).Alike (b.fragment d next) := by
  obtain ⟨column, op, v⟩ := a
  obtain ⟨_, _, w⟩ := b
  obtain ⟨rfl, rfl, hnull, hsize⟩ := h
  cases op with
  | compare c =>
    cases hv : v.isNull with
    | true =>
      have hw : w.isNull = true := hnull ▸ hv
      cases v <;> cases hv
      cases w <;> cases hw
      exact ⟨rfl, rfl⟩
    | false =>
      rw [fragment_compare hv, fragment_compare (hnull ▸ hv)]
      exact ⟨rfl, rfl⟩
  | member =>
    have hlength : (listed v).length = (listed w).length := hsize rfl
    unfold Atom.fragment
    simp only
    cases hvs : listed v with
    | nil =>
      rw [hvs, List.length_nil] at hlength
      rw [List.length_eq_zero_iff.1 hlength.symm]
      exact ⟨rfl, rfl⟩
    | cons x xs =>
      cases hws : listed w with
      | nil => simp [hvs, hws] at hlength
      | cons y ys => exact Dialect.alike_membership (hvs ▸ hws ▸ hlength) d _ next
  | pattern p => exact ⟨rfl, rfl⟩

mutual

/-- **Conditions on values that are alike are written alike.** -/
theorem Condition.Alike.fragment (d : Dialect) : {c c' : Condition} → c.Alike c' → (next : Nat) →
    (c.fragment d next).Alike (c'.fragment d next)
  | _, _, .atom h, next => h.fragment d next
  | _, _, .all h, next => .group (Condition.Alike.fragments d h next) .and true
  | _, _, .any h, next => .group (Condition.Alike.fragments d h next) .or false
  | _, _, .not h, next =>
    have hpart := (Condition.Alike.fragment d h next).parenthesize
    ⟨congrArg (Lexeme.not :: ·) hpart.lexemes, hpart.params⟩

theorem Condition.Alike.fragments (d : Dialect) : {cs cs' : List Condition} →
    List.Forall₂ Condition.Alike cs cs' → (next : Nat) →
      List.Forall₂ Fragment.Alike (Condition.fragments d next cs) (Condition.fragments d next cs')
  | _, _, .nil, next => .nil
  | _, _, .cons h hrest, next => by
    have hpart := Condition.Alike.fragment d h next
    rw [Condition.fragments, Condition.fragments, hpart.params]
    exact .cons hpart (Condition.Alike.fragments d hrest _)

end

/-! ## Queries -/

/-- Queries that are the same up to values that are alike. -/
structure Query.Alike (q q' : Query) : Prop where
  dialect : q.dialect = q'.dialect
  table : q.table = q'.table
  columns : q.columns = q'.columns
  conditions : List.Forall₂ Atom.Alike q.conditions q'.conditions
  tree : List.Forall₂ Condition.Alike q.tree.toList q'.tree.toList
  order : q.order = q'.order
  maxRows : q.maxRows = q'.maxRows
  skipped : q.skipped = q'.skipped

namespace Query

/-- The texts of the statements of a query: the one that reads the rows and the one that counts
them. -/
def texts (q : Query) : String × String := (q.select.text, q.count.text)

namespace Alike

variable {q q' : Query}

theorem refl (q : Query) : q.Alike q :=
  ⟨rfl, rfl, rfl, List.forall₂_same.2 fun a _ => .refl a,
    Condition.Alike.refl_parts _, rfl, rfl, rfl⟩

theorem parts (h : q.Alike q') : List.Forall₂ Condition.Alike q.parts q'.parts :=
  List.rel_append (List.rel_map (fun _ _ => .atom) h.conditions) h.tree

theorem whereText_eq (h : q.Alike q') : q.whereText = q'.whereText := by
  have hempty : q.parts.isEmpty = q'.parts.isEmpty := by
    rw [Bool.eq_iff_iff, List.isEmpty_iff_length_eq_zero, List.isEmpty_iff_length_eq_zero,
      h.parts.length_eq]
  have hcondition : q.condition.Alike q'.condition := by
    rw [condition, condition, h.dialect]
    exact .joinWith (Condition.Alike.fragments _ h.parts 1) .and
  rw [whereText, whereText, hempty, hcondition.text_eq, h.dialect]

/-- **Queries that differ in values only have the same texts.** -/
theorem texts_eq (h : q.Alike q') : q.texts = q'.texts := by
  have hcolumns : q.columnsText = q'.columnsText := by rw [columnsText, columnsText, h.columns]
  have horder : q.orderText = q'.orderText := by rw [orderText, orderText, h.order]
  have hpage : q.pageText = q'.pageText := by
    unfold pageText
    rw [h.maxRows, h.skipped, h.dialect]
  unfold texts select count
  rw [hcolumns, horder, hpage, h.whereText_eq, h.table]

/-! ### Steps -/

theorem fields (h : q.Alike q') (columns : List String) :
    Related Alike (q.fields columns) (q'.fields columns) :=
  (Related.same (fun _ => rfl) _).bind fun _ _ hcolumns => .ok { h with columns := hcolumns }

theorem filter (h : q.Alike q') (column : String) {op : Operator} {v w : Value}
    (hv : op.Alike v w) : Related Alike (q.filter column op v) (q'.filter column op w) := by
  have hatom : Related Atom.Alike (Atom.ofName column op v) (Atom.ofName column op w) :=
    (Related.same (fun _ => rfl) _).bind fun _ _ hcolumn => .ok ⟨hcolumn, rfl, hv⟩
  exact hatom.bind fun _ _ ha =>
    .ok { h with conditions := List.rel_append h.conditions (.cons ha .nil) }

theorem filterTree (h : q.Alike q') {c c' : Condition} (hc : c.Alike c') :
    (q.filterTree c).Alike (q'.filterTree c') := by
  refine { h with tree := .cons ?_ .nil }
  have htree := h.tree
  cases ht : q.tree with
  | none =>
    rw [ht] at htree
    cases ht' : q'.tree with
    | none => exact hc
    | some t' => rw [ht'] at htree; cases htree
  | some t =>
    rw [ht] at htree
    cases ht' : q'.tree with
    | none => rw [ht'] at htree; cases htree
    | some t' =>
      rw [ht'] at htree
      obtain _ | ⟨hearlier, -⟩ := htree
      -- A conjunction takes the new part in; any other condition becomes a part beside it.
      cases hearlier with
      | all hparts => exact .all (List.rel_append hparts (.cons hc .nil))
      | atom ha => exact .all (.cons (.atom ha) (.cons hc .nil))
      | any hparts => exact .all (.cons (.any hparts) (.cons hc .nil))
      | not hpart => exact .all (.cons (.not hpart) (.cons hc .nil))

theorem sort (h : q.Alike q') (column : String) (direction : Direction) :
    Related Alike (q.sort column direction) (q'.sort column direction) :=
  (Related.same (fun _ => rfl) _).bind fun i j (hcolumn : i = j) =>
    .ok { h with order := by rw [h.order, hcolumn] }

theorem limit (h : q.Alike q') (rows : UInt32) : (q.limit rows).Alike (q'.limit rows) :=
  { h with maxRows := rfl }

theorem offset (h : q.Alike q') (rows : UInt64) : (q.offset rows).Alike (q'.offset rows) :=
  { h with skipped := rfl }

end Alike

/-- A step of building a query. -/
inductive Step where
  | fields (columns : List String)
  | filter (column : String) (op : Operator) (value : Value)
  | filterTree (c : Condition)
  | sort (column : String) (direction : Direction)
  | limit (rows : UInt32)
  | offset (rows : UInt64)

namespace Step

/-- Take a step. -/
def applyTo (q : Query) : Step → Except BadName Query
  | .fields columns => q.fields columns
  | .filter column op value => q.filter column op value
  | .filterTree c => .ok (q.filterTree c)
  | .sort column direction => q.sort column direction
  | .limit rows => .ok (q.limit rows)
  | .offset rows => .ok (q.offset rows)

/-- The same step, up to values that are alike. -/
inductive Alike : Step → Step → Prop
  | fields (columns : List String) : Alike (.fields columns) (.fields columns)
  | filter (column : String) {op : Operator} {v w : Value} (h : op.Alike v w) :
      Alike (.filter column op v) (.filter column op w)
  | filterTree {c d : Condition} (h : c.Alike d) : Alike (.filterTree c) (.filterTree d)
  | sort (column : String) (direction : Direction) :
      Alike (.sort column direction) (.sort column direction)
  | limit (rows : UInt32) : Alike (.limit rows) (.limit rows)
  | offset (rows : UInt64) : Alike (.offset rows) (.offset rows)

/-- **A step keeps queries alike**, or is refused in both. -/
theorem related_applyTo {q q' : Query} (hq : q.Alike q') {step step' : Step}
    (h : step.Alike step') : Related Query.Alike (step.applyTo q) (step'.applyTo q') := by
  cases h with
  | fields columns => exact hq.fields columns
  | filter column hv => exact hq.filter column hv
  | filterTree hc => exact .ok (hq.filterTree hc)
  | sort column direction => exact hq.sort column direction
  | limit rows => exact .ok (hq.limit rows)
  | offset rows => exact .ok (hq.offset rows)

end Step

/-- The query of a table that steps build. -/
def build (d : Dialect) (table : String) (steps : List Step) : Except BadName Query := do
  steps.foldlM Step.applyTo (← ofTable d table)

/-- **Steps that differ in values only build queries that do**, or are refused for the same
reason. -/
theorem related_build (d : Dialect) (table : String) {steps steps' : List Step}
    (h : List.Forall₂ Step.Alike steps steps') :
    Related Alike (build d table steps) (build d table steps') :=
  (Related.same Alike.refl (ofTable d table)).bind fun _ _ hq =>
    Related.foldlM (R := Alike) (T := Step.Alike)
      (fun _ _ _ _ hq hstep => Step.related_applyTo hq hstep) h hq

end Query

end RequestQuery.Sql
