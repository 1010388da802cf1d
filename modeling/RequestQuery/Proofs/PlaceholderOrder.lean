import Mathlib.Data.List.Chain
import RequestQuery.Proofs.RenderedClause

/-!
# Placeholders and the values they stand for

The placeholders of a statement are found in its text alone: at every mark with digits after it, in
either dialect. Names, keywords and signs have no mark in them and no lexeme that follows a slot
begins with a digit, so the placeholders in the text of lexemes are their slots
(`Parted.numbers_charsOf`). The slots of a condition are numbered on from its first number, one for
each value that it binds (`Condition.numbered_fragment`, by induction on the tree), and every atom
writes those of its own values, after the atoms before it (`Condition.writes_of_mem_atoms`). For
whole statements it follows that placeholders and values line up (`Query.placeholders_line_up`).
-/

namespace RequestQuery.Sql

/-! ## Placeholders in a text -/

namespace Dialect

/-- The numbers of the placeholders in a text: of every mark with digits after it, the number that
they write. -/
def numbers (d : Dialect) : List Char → List Nat
  | [] => []
  | c :: cs =>
    if c = d.mark ∧ cs.takeWhile Char.isDigit ≠ [] then
      Nat.ofDigitChars 10 (cs.takeWhile Char.isDigit) 0 :: numbers d cs
    else numbers d cs

/-- The numbers of the placeholders in a text, from left to right. -/
def placeholders (d : Dialect) (text : String) : List Nat := d.numbers text.toList

example : placeholders .sqlite "a = ?1 AND b IN (?2, ?13) AND c$4 = '?'" = [1, 2, 13] := by decide

variable {d : Dialect}

/-- No number continues into a text that begins with no digit. -/
theorem numbers_append (as : List Char) {bs : List Char}
    (h : ∀ c ∈ bs.head?, c.isDigit = false) :
    d.numbers (as ++ bs) = d.numbers as ++ d.numbers bs := by
  have hnodigit : ∀ c ∈ ([] : List Char), c.isDigit = true := nofun
  have hnone : bs.takeWhile Char.isDigit = [] := Text.takeWhile_append_of_head hnodigit h
  induction as with
  | nil => rfl
  | cons a as ih =>
    have hdigits : (as ++ bs).takeWhile Char.isDigit = as.takeWhile Char.isDigit := by
      rw [List.takeWhile_append, hnone, List.append_nil]
      split
      · next hlength => exact ((List.takeWhile_prefix _).eq_of_length hlength).symm
      · rfl
    rw [List.cons_append, numbers, numbers, hdigits, ih]
    split <;> rfl

/-- Before a text without a mark there is no number but those after it. -/
theorem numbers_append_of_notMem {as : List Char} (h : d.mark ∉ as) (bs : List Char) :
    d.numbers (as ++ bs) = d.numbers bs := by
  induction as with
  | nil => rfl
  | cons a as ih =>
    rw [List.mem_cons, not_or] at h
    rw [List.cons_append, numbers, if_neg fun hmark => h.1 hmark.1.symm, ih h.2]

theorem numbers_eq_nil {cs : List Char} (h : d.mark ∉ cs) : d.numbers cs = [] := by
  have hnil := numbers_append_of_notMem h []
  rwa [List.append_nil] at hnil

/-- A mark and the digits of a number are read as the number. -/
theorem numbers_mark (n : Nat) {rest : List Char} (hrest : ∀ c ∈ rest.head?, c.isDigit = false) :
    d.numbers (d.mark :: (Nat.toDigits 10 n ++ rest)) = n :: d.numbers rest := by
  have hdigits : ∀ c ∈ Nat.toDigits 10 n, c.isDigit = true :=
    fun c hc => Nat.isDigit_of_mem_toDigits (by decide) (by decide) hc
  have hmark : d.mark ∉ Nat.toDigits 10 n := by
    intro hmem
    have := hdigits _ hmem
    cases d <;> exact absurd this (by decide)
  rw [numbers, Text.takeWhile_append_of_head hdigits hrest, if_pos ⟨rfl, Nat.toDigits_ne_nil⟩,
    Nat.ofDigitChars_ten_toDigits, numbers_append_of_notMem hmark]

end Dialect

/-! ## Slots of lexemes -/

/-- The number of a slot. -/
def Lexeme.slots : Lexeme → List Nat
  | .slot n => [n]
  | _ => []

/-- The numbers of the slots of lexemes, in order. -/
def slotsOf (ls : List Lexeme) : List Nat := ls.flatMap Lexeme.slots

/-- The mark of a placeholder stands in no word. -/
theorem Dialect.mark_notMem_of_isWord (d : Dialect) {s : String} (h : Ascii.isWord s = true) :
    d.mark ∉ s.toList := by
  obtain ⟨c, cs, hcs, hc, hall⟩ := Ascii.isWord_iff.1 h
  have hword : ∀ a ∈ c :: cs, Ascii.isWordChar a = true :=
    List.forall_mem_cons.2 ⟨Ascii.isWordChar_of_isWordStart hc, hall⟩
  intro hmem
  have hmark := hword _ (hcs ▸ hmem)
  cases d <;> exact absurd hmark (by decide)

variable {d : Dialect} {l : Lexeme} {ls ms : List Lexeme}

@[simp] theorem slotsOf_nil : slotsOf [] = [] := rfl

@[simp] theorem slotsOf_cons : slotsOf (l :: ls) = l.slots ++ slotsOf ls := List.flatMap_cons

@[simp] theorem slotsOf_append : slotsOf (ls ++ ms) = slotsOf ls ++ slotsOf ms :=
  List.flatMap_append

/-- Only a slot has a mark in its text. -/
theorem Lexeme.mark_notMem_spell (hname : l.WellNamed) (h : l.slots = []) :
    d.mark ∉ (l.spell d).toList := by
  cases l with
  | slot n => cases h
  | column name => exact d.mark_notMem_of_isWord hname
  | comparison c => cases d <;> cases c <;> decide
  | constant b => cases d <;> cases b <;> decide
  | isNull | isNotNull | inList | equalsAny | comma | like | concat | wildcard | escape | and | or
  | not | openParen | closeParen => cases d <;> decide

/-- **The placeholders in the text of a lexeme are its slots**, when what follows cannot continue
it. -/
theorem Lexeme.numbers_spell (hname : l.WellNamed) {rest : List Char}
    (hrest : l.isClosed = false → Delimits rest) :
    d.numbers ((l.spell d).toList ++ rest) = l.slots ++ d.numbers rest := by
  by_cases hslots : l.slots = []
  · rw [hslots, Dialect.numbers_append_of_notMem (mark_notMem_spell hname hslots)]
    rfl
  · cases l with
    | slot n =>
      have hdigit : ∀ c ∈ rest.head?, c.isDigit = false := fun c hc =>
        Bool.eq_false_iff.2 fun hd =>
          Bool.eq_false_iff.1 (hrest rfl c hc).1 (Ascii.isWordChar_of_isDigit hd)
      rw [spell, Dialect.toList_placeholder, List.cons_append, Dialect.numbers_mark n hdigit]
      rfl
    | _ => exact absurd rfl hslots

/-- Lexemes of which every two neighbours are told apart by their text: the first is closed or the
second is spaced. -/
structure Parted (ls : List Lexeme) : Prop where
  named : ∀ l ∈ ls, l.WellNamed
  chain : ls.IsChain fun l m => l.isClosed = true ∨ m.isSpaced = true

namespace Parted

theorem singleton (l : Lexeme) (hname : l.WellNamed) : Parted [l] :=
  ⟨List.forall_mem_singleton.2 hname, .singleton l⟩

theorem append (hl : Parted ls) (hm : Parted ms)
    (h : ∀ l ∈ ls.getLast?, ∀ m ∈ ms.head?, l.isClosed = true ∨ m.isSpaced = true) :
    Parted (ls ++ ms) :=
  ⟨List.forall_mem_append.2 ⟨hl.named, hm.named⟩, hl.chain.append hm.chain h⟩

theorem left (h : Parted (ls ++ ms)) : Parted ls :=
  ⟨(List.forall_mem_append.1 h.named).1, h.chain.left_of_append⟩

/-- Any lexeme may follow a closed one. -/
theorem cons_closed (l : Lexeme) (hl : l.isClosed = true) (hname : l.WellNamed) (h : Parted ls) :
    Parted (l :: ls) := by
  refine (singleton l hname).append h ?_
  intro l' hl' m hm
  cases hl'
  exact .inl hl

/-- A spaced lexeme may follow any other. -/
theorem append_spaced (hl : Parted ls) (hm : Parted (l :: ms)) (h : l.isSpaced = true) :
    Parted (ls ++ l :: ms) := by
  refine hl.append hm ?_
  intro l' hl' m hm
  cases hm
  exact .inr h

/-- **The placeholders in the text of parted lexemes are their slots.** -/
theorem numbers_charsOf (h : Parted ls) : d.numbers (charsOf d ls) = slotsOf ls := by
  induction ls with
  | nil => rfl
  | cons l ls ih =>
    have hrest : l.isClosed = false → Delimits (charsOf d ls) := by
      intro hopen
      match ls with
      | [] => exact nofun
      | m :: ms =>
        rcases (List.isChain_cons_cons.1 h.chain).1 with hclosed | hspaced
        · rw [hopen] at hclosed
          cases hclosed
        · rw [charsOf_cons]
          exact delimits_of_isSpaced hspaced _
    have htail : Parted ls := ⟨(List.forall_mem_cons.1 h.named).2, h.chain.tail⟩
    rw [charsOf_cons, Lexeme.numbers_spell (h.named l List.mem_cons_self) hrest, ih htail,
      slotsOf_cons]

end Parted

/-! ## Slots of fragments -/

/-- A fragment whose slots are numbered on from a number, one for each of its values. -/
structure Fragment.Numbered (next : Nat) (f : Fragment) : Prop where
  parted : Parted f.lexemes
  slots : slotsOf f.lexemes = List.range' next f.params.length

namespace Fragment.Numbered

variable {next : Nat} {f : Fragment}

theorem placeholders_text (h : f.Numbered next) (d : Dialect) :
    d.placeholders (f.text d) = List.range' next f.params.length := by
  rw [Dialect.placeholders, f.toList_text, h.parted.numbers_charsOf, h.slots]

theorem parenthesize (h : f.Numbered next) : f.parenthesize.Numbered next where
  parted := .cons_closed .openParen rfl trivial
    (h.parted.append_spaced (.singleton .closeParen trivial) rfl)
  slots := by
    have hslots := h.slots
    simp only [Fragment.parenthesize, slotsOf_cons, slotsOf_append, Lexeme.slots, slotsOf_nil,
      List.nil_append, List.append_nil, List.cons_append]
    exact hslots

end Fragment.Numbered

theorem parted_slotList (ns : List Nat) : Parted (slotList ns) := by
  match ns with
  | [] => exact .singleton .closeParen trivial
  | [n] =>
    exact (Parted.singleton (.slot n) trivial).append_spaced (.singleton .closeParen trivial) rfl
  | n :: m :: ns =>
    exact (Parted.singleton (.slot n) trivial).append_spaced
      (.cons_closed .comma rfl trivial (parted_slotList (m :: ns))) rfl

theorem slotsOf_slotList (ns : List Nat) : slotsOf (slotList ns) = ns := by
  match ns with
  | [] => rfl
  | [n] => rfl
  | n :: m :: ns =>
    change n :: slotsOf (slotList (m :: ns)) = _
    rw [slotsOf_slotList (m :: ns)]

/-- **The slots of a test are numbered on**, one for each value that it binds. -/
theorem Atom.numbered_fragment (d : Dialect) (next : Nat) (a : Atom) :
    (a.fragment d next).Numbered next := by
  obtain ⟨column, op, value⟩ := a
  have hcolumn : Parted [.column column.text] := .singleton _ column.isWord_text
  cases op with
  | compare c =>
    have hcompare : ∀ v : Value,
        Fragment.Numbered next ⟨[.column column.text, .comparison c, .slot next], [v]⟩ := fun v =>
      ⟨hcolumn.append_spaced
        (.cons_closed (.comparison c) rfl trivial (.singleton (.slot next) trivial)) rfl, rfl⟩
    have hnull : Fragment.Numbered next ⟨[.column column.text, .isNull], []⟩ :=
      ⟨hcolumn.append_spaced (.singleton .isNull trivial) rfl, rfl⟩
    have hnotNull : Fragment.Numbered next ⟨[.column column.text, .isNotNull], []⟩ :=
      ⟨hcolumn.append_spaced (.singleton .isNotNull trivial) rfl, rfl⟩
    cases c <;> cases value <;> first | exact hcompare _ | exact hnull | exact hnotNull
  | member =>
    simp only [fragment]
    cases listed value with
    | nil => exact ⟨.singleton (.constant false) trivial, rfl⟩
    | cons v values =>
      cases d with
      | postgres =>
        exact ⟨hcolumn.append_spaced (.cons_closed .equalsAny rfl trivial
          ((Parted.singleton (.slot next) trivial).append_spaced
            (.singleton .closeParen trivial) rfl)) rfl, rfl⟩
      | sqlite =>
        exact ⟨hcolumn.append_spaced (.cons_closed .inList rfl trivial (parted_slotList _)) rfl,
          slotsOf_slotList _⟩
  | pattern anchor =>
    have hslot : Parted [.slot next] := .singleton (.slot next) trivial
    have hwildcard : Parted [.wildcard] := .singleton .wildcard trivial
    have hescape : Parted [.escape] := .singleton .escape trivial
    have hend : Parted [.concat, .wildcard, .escape] :=
      .cons_closed .concat rfl trivial (hwildcard.append_spaced hescape rfl)
    cases anchor with
    | atStart =>
      exact ⟨hcolumn.append_spaced (.cons_closed .like rfl trivial
        (hslot.append_spaced hend rfl)) rfl, rfl⟩
    | atEnd =>
      exact ⟨hcolumn.append_spaced (.cons_closed .like rfl trivial (hwildcard.append_spaced
        (.cons_closed .concat rfl trivial (hslot.append_spaced hescape rfl)) rfl)) rfl, rfl⟩
    | anywhere =>
      exact ⟨hcolumn.append_spaced (.cons_closed .like rfl trivial (hwildcard.append_spaced
        (.cons_closed .concat rfl trivial (hslot.append_spaced hend rfl)) rfl)) rfl, rfl⟩

/-! ## Conditions -/

namespace Fragment.Numbered

variable {next : Nat} {f g : Fragment}

/-- Fragments that are numbered one after the other stay so with a connective between them. -/
theorem join (hf : f.Numbered next) (hg : g.Numbered (next + f.params.length)) (k : Connective) :
    Fragment.Numbered next ⟨f.lexemes ++ k.lexeme :: g.lexemes, f.params ++ g.params⟩ where
  parted := by
    cases k with
    | and => exact hf.parted.append_spaced (.cons_closed .and rfl trivial hg.parted) rfl
    | or => exact hf.parted.append_spaced (.cons_closed .or rfl trivial hg.parted) rfl
  slots := by
    have hk : k.lexeme.slots = [] := by cases k <;> rfl
    rw [slotsOf_append, slotsOf_cons, hk, List.nil_append, hf.slots, hg.slots,
      List.range'_append_1, List.length_append]

end Fragment.Numbered

namespace Condition

variable {parts : List Condition}

/-- Parts whose slots are numbered on are so when they are joined. -/
theorem numbered_joinWith (h : ∀ c ∈ parts, ∀ next, (c.fragment d next).Numbered next)
    (k : Connective) (next : Nat) :
    (Fragment.joinWith k.lexeme (fragments d next parts)).Numbered next := by
  induction parts generalizing next with
  | nil => exact ⟨⟨nofun, .nil⟩, rfl⟩
  | cons c parts ih =>
    have hc := h c List.mem_cons_self next
    have hparts := ih (fun c' hc' => h c' (List.mem_cons_of_mem _ hc'))
      (next + (c.fragment d next).params.length)
    match parts with
    | [] =>
      rw [fragments, fragments, Fragment.joinWith_singleton]
      exact hc
    | c' :: parts =>
      rw [fragments, fragments, Fragment.joinWith_cons_cons, ← fragments]
      exact hc.join hparts k

/-- A group of several parts is those parts joined, perhaps in parentheses. -/
theorem numbered_group (h : ∀ c ∈ parts, ∀ next, (c.fragment d next).Numbered next)
    (k : Connective) (next : Nat) :
    (group k.lexeme k.unit (fragments d next parts)).Numbered next := by
  have hjoined := numbered_joinWith h k next
  match parts with
  | [] => exact ⟨.singleton (.constant k.unit) trivial, rfl⟩
  | [c] => exact h c List.mem_cons_self next
  | _ :: _ :: _ => exact hjoined.parenthesize

mutual

/-- **The slots of a condition are numbered on**, one for each value that it binds. -/
theorem numbered_fragment (d : Dialect) : (c : Condition) → ∀ next,
    (c.fragment d next).Numbered next
  | .atom a, next => a.numbered_fragment d next
  | .all parts, next => numbered_group (numbered_fragment_of_mem d parts) .and next
  | .any parts, next => numbered_group (numbered_fragment_of_mem d parts) .or next
  | .not part, next =>
    have hpart := (numbered_fragment d part next).parenthesize
    ⟨.cons_closed .not rfl trivial hpart.parted, hpart.slots⟩

theorem numbered_fragment_of_mem (d : Dialect) : (parts : List Condition) → ∀ c ∈ parts, ∀ next,
    (c.fragment d next).Numbered next
  | part :: rest, c, hc, next =>
    (List.mem_cons.1 hc).elim (fun he => he ▸ numbered_fragment d part next)
      fun hc => numbered_fragment_of_mem d rest c hc next

end

/-! ### Atoms -/

mutual

/-- The atoms of a condition, from left to right. -/
def atoms : Condition → List Atom
  | .atom a => [a]
  | .all parts => atomsOf parts
  | .any parts => atomsOf parts
  | .not part => atoms part

/-- The atoms of a list of conditions, from left to right. -/
def atomsOf : List Condition → List Atom
  | [] => []
  | part :: rest => atoms part ++ atomsOf rest

end

mutual

/-- A condition binds the values of its atoms. -/
theorem bound_eq (d : Dialect) : (c : Condition) → c.bound d = c.atoms.flatMap (·.bound d)
  | .atom _ => (List.flatMap_singleton ..).symm
  | .all parts => boundBy_eq d parts
  | .any parts => boundBy_eq d parts
  | .not part => bound_eq d part

theorem boundBy_eq (d : Dialect) : (cs : List Condition) →
    boundBy d cs = (atomsOf cs).flatMap (·.bound d)
  | [] => rfl
  | part :: rest => by
    rw [boundBy, bound_eq d part, boundBy_eq d rest, atomsOf, List.flatMap_append]

end

theorem atomsOf_append (cs cs' : List Condition) :
    atomsOf (cs ++ cs') = atomsOf cs ++ atomsOf cs' := by
  induction cs with
  | nil => rfl
  | cons c cs ih => rw [List.cons_append, atomsOf, ih, atomsOf, List.append_assoc]

theorem atomsOf_map_atom (as : List Atom) : atomsOf (as.map .atom) = as := by
  induction as with
  | nil => rfl
  | cons a as ih =>
    rw [List.map_cons, atomsOf, ih]
    rfl

end Condition

/-- An atom is written among lexemes whose slots are numbered on from a number: the lexemes before
it have a slot for each value of the atoms before it, and its own slots are numbered on from
there. -/
def Atom.WrittenIn (d : Dialect) (next : Nat) (before : List Atom) (a : Atom) (ls : List Lexeme) :
    Prop :=
  ∃ pre post,
    ls = pre ++ (a.fragment d (next + (before.flatMap (·.bound d)).length)).lexemes ++ post ∧
      slotsOf pre = List.range' next (before.flatMap (·.bound d)).length

namespace Atom.WrittenIn

variable {next : Nat} {before : List Atom} {a : Atom}

theorem append_right (h : a.WrittenIn d next before ls) (ms : List Lexeme) :
    a.WrittenIn d next before (ls ++ ms) := by
  obtain ⟨pre, post, rfl, hpre⟩ := h
  exact ⟨pre, post ++ ms, by rw [List.append_assoc _ post], hpre⟩

theorem cons (h : a.WrittenIn d next before ls) (hl : l.slots = []) :
    a.WrittenIn d next before (l :: ls) := by
  obtain ⟨pre, post, rfl, hpre⟩ := h
  exact ⟨l :: pre, post, rfl, by rw [slotsOf_cons, hl, hpre, List.nil_append]⟩

/-- Lexemes with the slots of some atoms may stand before, when the numbers go on after them. -/
theorem after {atoms : List Atom}
    (h : a.WrittenIn d (next + (atoms.flatMap (·.bound d)).length) before ms)
    (hls : slotsOf ls = List.range' next (atoms.flatMap (·.bound d)).length) :
    a.WrittenIn d next (atoms ++ before) (ls ++ ms) := by
  obtain ⟨pre, post, rfl, hpre⟩ := h
  refine ⟨ls ++ pre, post, ?_, ?_⟩
  · rw [List.flatMap_append, List.length_append, ← Nat.add_assoc]
    simp only [List.append_assoc]
  · rw [slotsOf_append, hls, hpre, List.range'_append_1, List.flatMap_append, List.length_append]

end Atom.WrittenIn

/-- An element of two lists in a row is one of the first, or one of the second. -/
theorem split_append {α : Type} {xs ys before after : List α} {a : α}
    (h : xs ++ ys = before ++ a :: after) : (∃ rest, xs = before ++ a :: rest) ∨
      ∃ between, before = xs ++ between ∧ ys = between ++ a :: after := by
  rcases List.append_eq_append_iff.1 h with ⟨between, hbefore, hys⟩ | ⟨tail, hxs, htail⟩
  · exact .inr ⟨between, hbefore, hys⟩
  · cases tail with
    | nil =>
      rw [List.append_nil] at hxs
      exact .inr ⟨[], by rw [hxs, List.append_nil], htail.symm⟩
    | cons b rest =>
      rw [List.cons_append, List.cons.injEq] at htail
      exact .inl ⟨rest, by rw [hxs, htail.1]⟩

namespace Condition

variable {parts : List Condition}

/-- Every atom is written in a condition, after the atoms before it. -/
def Writes (d : Dialect) (c : Condition) : Prop :=
  ∀ next before a after, c.atoms = before ++ a :: after →
    a.WrittenIn d next before (c.fragment d next).lexemes

theorem writes_joinWith (h : ∀ c ∈ parts, c.Writes d) (k : Connective) (next : Nat)
    {before after : List Atom} {a : Atom} (hatoms : atomsOf parts = before ++ a :: after) :
    a.WrittenIn d next before (Fragment.joinWith k.lexeme (fragments d next parts)).lexemes := by
  induction parts generalizing next before with
  | nil => exact absurd (congrArg List.length hatoms) (by simp [atomsOf])
  | cons c parts ih =>
    have hc := h c List.mem_cons_self next
    have hmore : ∀ c' ∈ parts, c'.Writes d := fun c' hc' => h c' (List.mem_cons_of_mem _ hc')
    rcases split_append hatoms with ⟨rest, hfirst⟩ | ⟨between, rfl, hrest⟩
    · have hwritten := hc before a rest hfirst
      match parts with
      | [] =>
        rw [fragments, fragments, Fragment.joinWith_singleton]
        exact hwritten
      | c' :: parts =>
        rw [fragments, fragments, Fragment.joinWith_cons_cons, ← fragments]
        exact hwritten.append_right _
    · match parts with
      | [] => exact absurd (congrArg List.length hrest) (by simp [atomsOf])
      | c' :: parts =>
        have hlength : (c.fragment d next).params.length =
            (c.atoms.flatMap (·.bound d)).length := by
          rw [params_fragment, bound_eq]
        have hslots := (numbered_fragment d c next).slots
        have hk : k.lexeme.slots = [] := by cases k <;> rfl
        rw [fragments, fragments, Fragment.joinWith_cons_cons, ← fragments]
        rw [hlength] at hslots ⊢
        exact ((ih hmore _ hrest).cons hk).after hslots

theorem writes_group (h : ∀ c ∈ parts, c.Writes d) (k : Connective) (next : Nat)
    {before after : List Atom} {a : Atom} (hatoms : atomsOf parts = before ++ a :: after) :
    a.WrittenIn d next before (group k.lexeme k.unit (fragments d next parts)).lexemes := by
  have hjoined := writes_joinWith h k next hatoms
  match parts with
  | [] => exact absurd (congrArg List.length hatoms) (by simp [atomsOf])
  | [c] =>
    rw [fragments, fragments, Fragment.joinWith_singleton] at hjoined
    exact hjoined
  | _ :: _ :: _ => exact (hjoined.cons rfl).append_right _

mutual

/-- **Every atom writes the slots of its own values**, after those of the atoms before it. -/
theorem writes (d : Dialect) : (c : Condition) → c.Writes d
  | .atom b => fun next before a after hatoms => by
    obtain ⟨rfl, hb⟩ | ⟨as, -, hnil⟩ := List.append_eq_cons_iff.1 hatoms.symm
    · cases hb
      exact ⟨[], [], (List.append_nil _).symm, rfl⟩
    · cases as <;> cases hnil
  | .all parts => fun next _ _ _ hatoms => writes_group (writes_of_mem d parts) .and next hatoms
  | .any parts => fun next _ _ _ hatoms => writes_group (writes_of_mem d parts) .or next hatoms
  | .not part => fun next before a after hatoms =>
    (((writes d part next before a after hatoms).cons rfl).append_right _).cons rfl

theorem writes_of_mem (d : Dialect) : (parts : List Condition) → ∀ c ∈ parts, c.Writes d
  | part :: rest, c, hc =>
    (List.mem_cons.1 hc).elim (fun he => he ▸ writes d part) fun hc => writes_of_mem d rest c hc

end

end Condition

/-! ## Statements -/

section Texts

variable {s t : String}

theorem mark_notMem_append (hs : d.mark ∉ s.toList) (ht : d.mark ∉ t.toList) :
    d.mark ∉ (s ++ t).toList := by
  rw [String.toList_append, List.mem_append]
  exact not_or.2 ⟨hs, ht⟩

theorem mark_notMem_join (hs : d.mark ∉ s.toList) {pieces : List String}
    (h : ∀ piece ∈ pieces, d.mark ∉ piece.toList) : d.mark ∉ (Text.join s pieces).toList := by
  rw [Text.join, String.toList_intercalate]
  induction pieces with
  | nil => exact List.not_mem_nil
  | cons piece pieces ih =>
    have hpieces := ih fun p hp => h p (List.mem_cons_of_mem _ hp)
    match pieces with
    | [] =>
      rw [List.map_singleton, List.intercalate_singleton]
      exact h piece List.mem_cons_self
    | next :: pieces =>
      rw [List.map_cons, List.map_cons, List.intercalate_cons_cons, ← List.map_cons]
      simp only [List.mem_append, not_or]
      exact ⟨⟨h piece List.mem_cons_self, hs⟩, hpieces⟩

theorem mark_notMem_repr (d : Dialect) (n : Nat) : d.mark ∉ (toString n).toList := by
  have hdigits : ∀ c ∈ (toString n).toList, c.isDigit = true := by
    intro c hc
    rw [Nat.toString_eq_repr, Nat.toList_repr] at hc
    exact Nat.isDigit_of_mem_toDigits (by decide) (by decide) hc
  intro hmem
  have hmark := hdigits _ hmem
  cases d <;> exact absurd hmark (by decide)

/-- A text that is empty or begins with a blank. -/
def BeginsBlank (s : String) : Prop := ∀ c ∈ s.toList.head?, c = ' '

theorem BeginsBlank.append (hs : BeginsBlank s) (ht : BeginsBlank t) : BeginsBlank (s ++ t) := by
  intro c hc
  rw [String.toList_append, List.head?_append] at hc
  cases hhead : s.toList.head? with
  | none => exact ht c (by rwa [hhead, Option.none_or] at hc)
  | some b => exact hs c (by rwa [hhead, Option.some_or, ← hhead] at hc)

namespace Query

theorem mark_notMem_columnsText (d : Dialect) (q : Query) : d.mark ∉ q.columnsText.toList := by
  unfold columnsText
  split
  · cases d <;> decide
  · refine mark_notMem_join (by cases d <;> decide) ?_
    intro piece hpiece
    obtain ⟨column, -, rfl⟩ := List.mem_map.1 hpiece
    exact d.mark_notMem_of_isWord column.isWord_text

theorem mark_notMem_orderText (d : Dialect) (q : Query) : d.mark ∉ q.orderText.toList := by
  unfold orderText
  split
  · exact List.not_mem_nil
  · refine mark_notMem_append (by cases d <;> decide) (mark_notMem_join (by cases d <;> decide) ?_)
    intro piece hpiece
    obtain ⟨⟨column, direction⟩, -, rfl⟩ := List.mem_map.1 hpiece
    have hcolumn := d.mark_notMem_of_isWord column.isWord_text
    refine mark_notMem_append (mark_notMem_append hcolumn ?_) ?_
    · cases d <;> decide
    · cases d <;> cases direction <;> decide

theorem mark_notMem_pageText (d : Dialect) (q : Query) : d.mark ∉ q.pageText.toList := by
  have hlimit : d.mark ∉ " LIMIT ".toList := by cases d <;> decide
  have hoffset : d.mark ∉ " OFFSET ".toList := by cases d <;> decide
  have hbare : d.mark ∉ " LIMIT -1 OFFSET ".toList := by cases d <;> decide
  have hnumber := mark_notMem_repr d
  unfold pageText
  split
  · exact mark_notMem_append (mark_notMem_append (mark_notMem_append hlimit (hnumber _)) hoffset)
      (hnumber _)
  · exact mark_notMem_append hlimit (hnumber _)
  · cases q.dialect with
    | postgres => exact mark_notMem_append hoffset (hnumber _)
    | sqlite => exact mark_notMem_append hbare (hnumber _)
  · exact List.not_mem_nil

theorem beginsBlank_orderText (q : Query) : BeginsBlank q.orderText := by
  unfold orderText
  split
  · exact nofun
  · intro c hc
    rw [String.toList_append] at hc
    cases hc
    rfl

theorem beginsBlank_pageText (q : Query) : BeginsBlank q.pageText := by
  have hnumber : ∀ (s : String) (cs : List Char), s.toList = ' ' :: cs → ∀ t : String,
      BeginsBlank (s ++ t) := by
    intro s cs hs t c hc
    rw [String.toList_append, hs] at hc
    cases hc
    rfl
  unfold pageText
  split
  · rw [String.append_assoc, String.append_assoc]
    exact hnumber _ _ rfl _
  · exact hnumber _ _ rfl _
  · cases q.dialect <;> exact hnumber _ _ rfl _
  · exact nofun

end Query

end Texts

/-- The placeholders of a statement and its values line up, over the atoms that it is made of: the
values are those that the atoms bind, the placeholders are numbered from one to the number of
values, and every atom is written with the placeholders of its own values, after those of the atoms
before it. -/
structure Statement.LinesUp (d : Dialect) (atoms : List Atom) (s : Statement) : Prop where
  params : s.params = atoms.flatMap (·.bound d)
  placeholders : d.placeholders s.text = List.range' 1 s.params.length
  written : ∀ before a after, atoms = before ++ a :: after → ∃ pre own post : String,
    s.text = pre ++ own ++ post ∧
      own = (a.fragment d (1 + (before.flatMap (·.bound d)).length)).text d ∧
        d.placeholders pre = List.range' 1 (before.flatMap (·.bound d)).length ∧
          d.placeholders own =
            List.range' (1 + (before.flatMap (·.bound d)).length) (a.bound d).length

namespace Query

/-- The atoms of a query: its conditions, and then those of its tree. -/
def atoms (q : Query) : List Atom := q.conditions ++ Condition.atomsOf q.tree.toList

theorem atomsOf_parts (q : Query) : Condition.atomsOf q.parts = q.atoms := by
  rw [parts, Condition.atomsOf_append, Condition.atomsOf_map_atom, atoms]

theorem numbered_condition (q : Query) : q.condition.Numbered 1 :=
  Condition.numbered_joinWith (fun c _ => c.numbered_fragment q.dialect) .and 1

theorem params_eq (q : Query) : q.condition.params = q.atoms.flatMap (·.bound q.dialect) := by
  rw [params_condition, Condition.boundBy_eq, atomsOf_parts]

theorem placeholders_whereText (q : Query) :
    q.dialect.placeholders q.whereText = List.range' 1 q.condition.params.length := by
  unfold whereText
  split
  · next hempty =>
    rw [condition, List.isEmpty_iff.1 hempty]
    rfl
  · have hword : q.dialect.mark ∉ " WHERE ".toList := by cases q.dialect <;> decide
    rw [Dialect.placeholders, String.toList_append, Dialect.numbers_append_of_notMem hword]
    exact q.numbered_condition.placeholders_text q.dialect

/-- An atom of a query is written in its clause. -/
theorem written_whereText (q : Query) {before after : List Atom} {a : Atom}
    (hatoms : q.atoms = before ++ a :: after) : ∃ pre post : String,
      q.whereText = pre ++ (a.fragment q.dialect
        (1 + (before.flatMap (·.bound q.dialect)).length)).text q.dialect ++ post ∧
      q.dialect.placeholders pre =
        List.range' 1 (before.flatMap (·.bound q.dialect)).length := by
  rw [← atomsOf_parts] at hatoms
  have hparts : ¬ q.parts.isEmpty = true := by
    intro hempty
    rw [List.isEmpty_iff.1 hempty] at hatoms
    exact absurd (congrArg List.length hatoms) (by simp [Condition.atomsOf])
  obtain ⟨pre, post, hlexemes, hslots⟩ :=
    Condition.writes_joinWith (fun c _ => c.writes q.dialect) .and 1 hatoms
  have hparted := q.numbered_condition.parted
  have hcondition : q.condition.lexemes = pre ++ (a.fragment q.dialect
    (1 + (before.flatMap (·.bound q.dialect)).length)).lexemes ++ post := hlexemes
  rw [hcondition] at hparted
  refine ⟨" WHERE " ++ Fragment.text q.dialect ⟨pre, []⟩, Fragment.text q.dialect ⟨post, []⟩,
    ?_, ?_⟩
  · refine String.toList_injective ?_
    rw [whereText, if_neg hparts]
    simp only [String.toList_append, Fragment.toList_text, hcondition, charsOf_append,
      List.append_assoc]
  · have hword : q.dialect.mark ∉ " WHERE ".toList := by cases q.dialect <;> decide
    rw [Dialect.placeholders, String.toList_append, Dialect.numbers_append_of_notMem hword,
      Fragment.toList_text, hparted.left.left.numbers_charsOf, hslots]

/-- A statement that is the clause of a query, between texts without placeholders, lines up. -/
theorem linesUp_between (q : Query) {head tail : String} (hhead : q.dialect.mark ∉ head.toList)
    (htail : q.dialect.mark ∉ tail.toList) (hblank : BeginsBlank tail) :
    Statement.LinesUp q.dialect q.atoms ⟨head ++ q.whereText ++ tail, q.condition.params⟩ where
  params := q.params_eq
  placeholders := by
    have hdigit : ∀ c ∈ tail.toList.head?, c.isDigit = false := by
      intro c hc
      rw [hblank c hc]
      rfl
    rw [Dialect.placeholders, String.toList_append, String.toList_append, List.append_assoc,
      Dialect.numbers_append_of_notMem hhead, Dialect.numbers_append _ hdigit,
      Dialect.numbers_eq_nil htail, List.append_nil]
    exact q.placeholders_whereText
  written := by
    intro before a after hatoms
    obtain ⟨pre, post, hwhere, hpre⟩ := q.written_whereText hatoms
    refine ⟨head ++ pre, _, post ++ tail, ?_, rfl, ?_, ?_⟩
    · rw [hwhere]
      simp only [String.append_assoc]
    · rw [Dialect.placeholders, String.toList_append, Dialect.numbers_append_of_notMem hhead]
      exact hpre
    · rw [(a.numbered_fragment q.dialect _).placeholders_text, Atom.params_fragment]

/-- **Placeholders and values line up**, in the statement that reads the rows of a query and in the
one that counts them. -/
theorem placeholders_line_up (q : Query) :
    q.select.LinesUp q.dialect q.atoms ∧ q.count.LinesUp q.dialect q.atoms := by
  have hselect : q.dialect.mark ∉ "SELECT ".toList := by cases q.dialect <;> decide
  have hfrom : q.dialect.mark ∉ " FROM ".toList := by cases q.dialect <;> decide
  have hcount : q.dialect.mark ∉ "SELECT COUNT(*) AS count FROM ".toList := by
    cases q.dialect <;> decide
  have htable := q.dialect.mark_notMem_of_isWord q.table.isWord_text
  have hcolumns := q.mark_notMem_columnsText q.dialect
  constructor
  · have hlines := q.linesUp_between
      (mark_notMem_append (mark_notMem_append (mark_notMem_append hselect hcolumns) hfrom) htable)
      (mark_notMem_append (q.mark_notMem_orderText q.dialect) (q.mark_notMem_pageText q.dialect))
      (q.beginsBlank_orderText.append q.beginsBlank_pageText)
    rw [← String.append_assoc] at hlines
    exact hlines
  · have hnone : q.dialect.mark ∉ "".toList := List.not_mem_nil
    have hlines := q.linesUp_between (mark_notMem_append hcount htable) hnone nofun
    rw [String.append_empty] at hlines
    exact hlines

end Query

end RequestQuery.Sql
