/-!
# Octets of UTF-8

* `width s`: how many octets a text takes.
* `encode cs`: the octets of a list of characters.
* `decode bs`: the characters of a list of octets, with a replacement character (U+FFFD) for every
  maximal part that no character begins with.

The decoder is a machine that takes one octet at a time: `Pending` says how many continuation
octets a started character still needs and between which bounds the next one lies. An octet outside
the bounds ends the started character, which is replaced, and begins anew.
-/

namespace RequestQuery.Utf8

/-- The number of octets of a list of characters. -/
def widthOf (cs : List Char) : Nat := cs.foldr (fun c n => c.utf8Size + n) 0

/-- The number of octets of a text. -/
def width (s : String) : Nat := widthOf s.toList

@[simp] theorem widthOf_nil : widthOf [] = 0 := rfl

@[simp] theorem widthOf_cons (c : Char) (cs : List Char) :
    widthOf (c :: cs) = c.utf8Size + widthOf cs := rfl

@[simp] theorem widthOf_append (cs ds : List Char) :
    widthOf (cs ++ ds) = widthOf cs + widthOf ds := by
  induction cs with
  | nil => simp
  | cons c cs ih => rw [List.cons_append, widthOf_cons, widthOf_cons, ih, Nat.add_assoc]

theorem widthOf_pos {cs : List Char} (h : cs ≠ []) : 0 < widthOf cs := by
  obtain ⟨c, cs, rfl⟩ := List.exists_cons_of_ne_nil h
  exact Nat.add_pos_left c.utf8Size_pos _

/-- The width of a text is its size in UTF-8. -/
theorem width_eq_utf8ByteSize (s : String) : width s = s.utf8ByteSize := by
  have hlist : ∀ cs : List Char, widthOf cs = (String.ofList cs).utf8ByteSize := by
    intro cs
    induction cs with
    | nil => rfl
    | cons c cs ih =>
      rw [String.ofList_cons, String.utf8ByteSize_append, String.utf8ByteSize_singleton,
        widthOf_cons, ih]
  rw [width, hlist, String.ofList_toList]

/-- A character of ASCII takes one octet. -/
theorem utf8Size_of_lt {c : Char} (h : c.toNat < 0x80) : c.utf8Size = 1 :=
  Char.utf8Size_eq_one_iff.2 (UInt32.le_iff_toNat_le.2 (Nat.le_of_lt_succ h))

theorem widthOf_of_lt {cs : List Char} (h : ∀ c ∈ cs, c.toNat < 0x80) :
    widthOf cs = cs.length := by
  induction cs with
  | nil => rfl
  | cons c cs ih =>
    rw [List.forall_mem_cons] at h
    rw [widthOf_cons, utf8Size_of_lt h.1, ih h.2, List.length_cons, Nat.add_comm]

theorem widthOf_replicate (n : Nat) (c : Char) :
    widthOf (List.replicate n c) = n * c.utf8Size := by
  induction n with
  | zero => rw [List.replicate_zero, widthOf_nil, Nat.zero_mul]
  | succ n ih => rw [List.replicate_succ, widthOf_cons, ih, Nat.succ_mul, Nat.add_comm]

/-- The octets of a list of characters. -/
def encode (cs : List Char) : List UInt8 := cs.flatMap String.utf8EncodeChar

/-- The octets of a text are as many as its width. -/
theorem length_encode (cs : List Char) : (encode cs).length = widthOf cs := by
  induction cs with
  | nil => rfl
  | cons c cs ih =>
    simp only [encode, List.flatMap_cons, List.length_append] at *
    rw [ih, widthOf_cons, String.length_utf8EncodeChar]

/-- A started character: how many octets it still needs, between which bounds the next one lies,
and the number made of the bits read so far. -/
structure Pending where
  needed : Nat
  low : Nat
  high : Nat
  code : Nat

/-- The character that stands for octets that are not UTF-8. -/
def replacement : Char := '\uFFFD'

/-- What the first octet of a character leads to. -/
inductive Lead where
  /-- A character of one octet. -/
  | whole (c : Char)
  /-- The beginning of a longer character. -/
  | more (p : Pending)
  /-- No character begins with this octet. -/
  | stray

/-- The first octet of a character. The bounds on the second octet leave out overlong forms,
surrogates and numbers above U+10FFFF. -/
def lead (b : Nat) : Lead :=
  if b < 0x80 then .whole (Char.ofNat b)
  else if 0xC2 ≤ b ∧ b ≤ 0xDF then .more ⟨1, 0x80, 0xBF, b - 0xC0⟩
  else if b = 0xE0 then .more ⟨2, 0xA0, 0xBF, 0⟩
  else if b = 0xED then .more ⟨2, 0x80, 0x9F, 0xD⟩
  else if 0xE1 ≤ b ∧ b ≤ 0xEF then .more ⟨2, 0x80, 0xBF, b - 0xE0⟩
  else if b = 0xF0 then .more ⟨3, 0x90, 0xBF, 0⟩
  else if 0xF1 ≤ b ∧ b ≤ 0xF3 then .more ⟨3, 0x80, 0xBF, b - 0xF0⟩
  else if b = 0xF4 then .more ⟨3, 0x80, 0x8F, 4⟩
  else .stray

/-- The machine between two octets: the characters read, latest first, and the started one. -/
structure Machine where
  done : List Char
  pending : Option Pending

/-- Take an octet as the first one of a character. -/
def Machine.start (done : List Char) (b : Nat) : Machine :=
  match lead b with
  | .whole c => ⟨c :: done, none⟩
  | .more p => ⟨done, some p⟩
  | .stray => ⟨replacement :: done, none⟩

/-- Take the next octet. -/
def Machine.step (m : Machine) (octet : UInt8) : Machine :=
  let b := octet.toNat
  match m.pending with
  | none => Machine.start m.done b
  | some p =>
    if p.low ≤ b ∧ b ≤ p.high then
      let code := p.code * 64 + (b - 0x80)
      if p.needed ≤ 1 then ⟨Char.ofNat code :: m.done, none⟩
      else ⟨m.done, some ⟨p.needed - 1, 0x80, 0xBF, code⟩⟩
    else Machine.start (replacement :: m.done) b

/-- The characters read, with a replacement for a character that the end cuts short. -/
def Machine.finish (m : Machine) : List Char :=
  match m.pending with
  | none => m.done.reverse
  | some _ => (replacement :: m.done).reverse

/-- The characters of a list of octets, replacing what is not UTF-8. -/
def decode (octets : List UInt8) : List Char :=
  (octets.foldl Machine.step ⟨[], none⟩).finish

end RequestQuery.Utf8
