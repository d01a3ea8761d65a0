import Mathlib.Algebra.Group.Int.Defs
import Mathlib.Algebra.Group.Nat.Defs
import Mathlib.Logic.Relation
import MiniJava.Proofs.IR.Machine

/-!
# Running code that uses memory

What instructions do, as far as arrays need them. Memory is blocks of bytes, which `calloc` clears
and which lie apart from each other; a pointer is a place in a block, and what is read or written
has to lie inside. Numbers of 32 bits have their lowest byte first. There is no next state where an
instruction has no meaning here, and none at a call of a function that stops the program.
-/
namespace MiniJava.IR.Heap

structure Pointer where
  block : Nat
  offset : Int
  deriving DecidableEq

/-- What a temporary holds. -/
inductive Datum where
  | word (w : Word)
  | byte (b : BitVec 8)
  | ptr (p : Pointer)
  deriving DecidableEq

def Datum.fits : Datum → IRType → Bool
  | .word w, ty => w.fits ty
  | .byte _, .i8 => true
  | .ptr _, .ptr _ => true
  | _, _ => false

def bytesOf : Nat → Nat → List (BitVec 8)
  | 0, _ => []
  | k + 1, n => .ofNat 8 n :: bytesOf k (n / 256)

def numberOf : List (BitVec 8) → Nat
  | [] => 0
  | b :: bs => b.toNat + 256 * numberOf bs

@[simp] theorem length_bytesOf (k n : Nat) : (bytesOf k n).length = k := by
  induction k generalizing n with
  | zero => rfl
  | succ k ih => rw [bytesOf, List.length_cons, ih]

theorem numberOf_bytesOf (k n : Nat) : numberOf (bytesOf k n) = n % 256 ^ k := by
  induction k generalizing n with
  | zero => rw [bytesOf, numberOf, Nat.pow_zero, Nat.mod_one]
  | succ k ih =>
    rw [bytesOf, numberOf, ih, Nat.pow_succ, Nat.mul_comm (256 ^ k), Nat.mod_mul]
    rfl

/-- Bytes that a value takes up in memory. -/
def sizeOf? : IRType → Option Nat
  | .i8 => some 1
  | .i32 => some 4
  | _ => none

def Datum.encode : Datum → Option (List (BitVec 8))
  | .word (.i32 w) => some (bytesOf 4 w.toNat)
  | .byte b => some [b]
  | .word (.i1 _) | .ptr _ => none

def decode : IRType → List (BitVec 8) → Option Datum
  | .i32, bytes => some (.word (.i32 (.ofNat 32 (numberOf bytes))))
  | .i8, [b] => some (.byte b)
  | _, _ => none

theorem decode_bytesOf (w : BitVec 32) :
    decode .i32 (bytesOf 4 w.toNat) = some (.word (.i32 w)) := by
  have bound : w.toNat < 256 ^ 4 := w.isLt
  rw [decode, numberOf_bytesOf, Nat.mod_eq_of_lt bound, BitVec.ofNat_toNat, BitVec.setWidth_eq]

/-- The blocks in the order in which they were asked for. -/
abbrev Memory := List (List (BitVec 8))

/-- Some bytes of a block from a place on. -/
def Inside (offset : Int) (size : Nat) (bytes : List (BitVec 8)) : Prop :=
  0 ≤ offset ∧ offset + size ≤ bytes.length

instance (offset : Int) (size : Nat) (bytes : List (BitVec 8)) :
    Decidable (Inside offset size bytes) := inferInstanceAs (Decidable (_ ∧ _))

theorem Inside.room {offset : Int} {size : Nat} {bytes : List (BitVec 8)}
    (h : Inside offset size bytes) : offset.toNat + size ≤ bytes.length := by
  obtain ⟨low, high⟩ := h
  omega

/-- Some bytes with others written over them from a place on. -/
def patch (bytes : List (BitVec 8)) (offset : Nat) (new : List (BitVec 8)) : List (BitVec 8) :=
  bytes.take offset ++ new ++ bytes.drop (offset + new.length)

namespace Memory

def read (m : Memory) (p : Pointer) (size : Nat) : Option (List (BitVec 8)) :=
  m[p.block]?.bind fun bytes =>
    if Inside p.offset size bytes then some ((bytes.drop p.offset.toNat).take size) else none

def write (m : Memory) (p : Pointer) (new : List (BitVec 8)) : Option Memory :=
  m[p.block]?.bind fun bytes =>
    if Inside p.offset new.length bytes then
      some (m.set p.block (patch bytes p.offset.toNat new))
    else none

/-- Cleared memory behind all other blocks. -/
def alloc (m : Memory) (size : Nat) : Memory := m ++ [List.replicate size 0]

end Memory

section Patch
variable {bytes new : List (BitVec 8)} {offset : Nat} (room : offset + new.length ≤ bytes.length)
include room

theorem length_patch : (patch bytes offset new).length = bytes.length := by
  rw [patch, List.length_append, List.length_append, List.length_take, List.length_drop]
  omega

theorem getElem?_patch (i : Nat) : (patch bytes offset new)[i]? =
    if offset ≤ i ∧ i < offset + new.length then new[i - offset]? else bytes[i]? := by
  have before : (bytes.take offset).length = offset := by
    rw [List.length_take]
    omega
  rw [patch, List.append_assoc, List.getElem?_append, before]
  split
  · rw [List.getElem?_take, if_pos (by assumption), if_neg (by omega)]
  · rw [List.getElem?_append]
    split
    · rw [if_pos (by omega)]
    · rw [if_neg (by omega), List.getElem?_drop]
      congr 1
      omega

end Patch

namespace Memory

theorem read_eq {m : Memory} {p : Pointer} {size : Nat} {bytes : List (BitVec 8)}
    (hb : m[p.block]? = some bytes) (inside : Inside p.offset size bytes) :
    m.read p size = some ((bytes.drop p.offset.toNat).take size) := by
  rw [read, hb, Option.bind_some, if_pos inside]

theorem write_eq {m : Memory} {p : Pointer} {new bytes : List (BitVec 8)}
    (hb : m[p.block]? = some bytes) (inside : Inside p.offset new.length bytes) :
    m.write p new = some (m.set p.block (patch bytes p.offset.toNat new)) := by
  rw [write, hb, Option.bind_some, if_pos inside]

section Write
variable {m m' : Memory} {p q : Pointer} {new : List (BitVec 8)} (h : m.write p new = some m')
include h

theorem of_write : ∃ bytes, m[p.block]? = some bytes ∧ Inside p.offset new.length bytes ∧
    m' = m.set p.block (patch bytes p.offset.toNat new) := by
  rw [write] at h
  obtain ⟨bytes, hb, written⟩ := Option.bind_eq_some_iff.mp h
  split at written
  · rename_i inside
    exact ⟨bytes, hb, inside, (Option.some.inj written).symm⟩
  · cases written

/-- Other blocks stay as they are. -/
theorem block_write {b : Nat} (other : b ≠ p.block) : m'[b]? = m[b]? := by
  obtain ⟨bytes, _, _, rfl⟩ := of_write h
  exact List.getElem?_set_ne other.symm

theorem block_write_self : ∃ bytes, m[p.block]? = some bytes ∧ Inside p.offset new.length bytes ∧
    m'[p.block]? = some (patch bytes p.offset.toNat new) := by
  obtain ⟨bytes, hb, inside, rfl⟩ := of_write h
  obtain ⟨bound, _⟩ := List.getElem?_eq_some_iff.mp hb
  exact ⟨bytes, hb, inside, List.getElem?_set_self bound⟩

theorem read_write_self : m'.read p new.length = some new := by
  obtain ⟨bytes, _, inside, hb'⟩ := block_write_self h
  have room := inside.room
  have inside' : Inside p.offset new.length (patch bytes p.offset.toNat new) := by
    rwa [Inside, length_patch room]
  rw [read_eq hb' inside', patch, List.append_assoc, List.drop_left' (by simp; omega),
    List.take_left' rfl]

/-- Bytes that were not written are read as before. -/
theorem read_write_apart {size : Nat} (apart : q.block = p.block →
    q.offset + size ≤ p.offset ∨ p.offset + new.length ≤ q.offset) :
    m'.read q size = m.read q size := by
  by_cases same : q.block = p.block
  · obtain ⟨bytes, hb, inside, hb'⟩ := block_write_self h
    have room := inside.room
    rw [← same] at hb hb'
    by_cases here : Inside q.offset size bytes
    · rw [read_eq hb here, read_eq hb' (by rwa [Inside, length_patch room])]
      refine congrArg some (List.ext_getElem? fun j => ?_)
      rw [List.getElem?_take, List.getElem?_take, List.getElem?_drop, List.getElem?_drop,
        getElem?_patch room]
      split
      · have := apart same
        have := here.1
        have := inside.1
        exact if_neg (by omega)
      · rfl
    · rw [read, read, hb, hb', Option.bind_some, Option.bind_some, if_neg here,
        if_neg (by rwa [Inside, length_patch room])]
  · rw [read, read, block_write h same]

end Write

/-- The first bytes of a block that was asked for last. -/
theorem write_alloc (m : Memory) {size : Nat} {new : List (BitVec 8)} (room : new.length ≤ size) :
    (m.alloc size).write ⟨m.length, 0⟩ new =
      some (m ++ [new ++ List.replicate (size - new.length) 0]) := by
  have last : (m.alloc size)[m.length]? = some (List.replicate size 0) := by simp [alloc]
  rw [write_eq last ⟨Int.le_refl 0, by simpa using room⟩]
  simp [alloc, patch]

end Memory

def Temps : Type := Nat → Option Datum

namespace Temps

def empty : Temps := fun _ => none

def set (t : Temps) (n : Nat) (d : Datum) : Temps := Function.update t n (some d)

/-- An operand, at the type it is used with. -/
def operand (t : Temps) : IRType → Value → Option Datum
  | ty, .temp n => (t n).filter (·.fits ty)
  | .i1, .int v => some (.word (.i1 (.ofInt 1 v)))
  | .i32, .int v => some (.word (.i32 (.ofInt 32 v)))
  | .i1, .bool b => some (.word (.i1 (.ofBool b)))
  | _, _ => none

def word (t : Temps) (ty : IRType) (v : Value) : Option Word :=
  match t.operand ty v with
  | some (.word w) => some w
  | _ => none

def bits (t : Temps) (v : Value) : Option (BitVec 32) :=
  match t.word .i32 v with
  | some (.i32 w) => some w
  | _ => none

def pointer (t : Temps) (ty : IRType) (v : Value) : Option Pointer :=
  match t.operand (.ptr ty) v with
  | some (.ptr p) => some p
  | _ => none

section Set
variable {t : Temps} {n : Nat} {d : Datum} {v : Value}

theorem set_self : t.set n d n = some d := Function.update_self _ _ _

theorem set_of_ne {i : Nat} (h : i ≠ n) : t.set n d i = t i := Function.update_of_ne h _ _

theorem operand_set_self {ty : IRType} (fits : d.fits ty = true) :
    (t.set n d).operand ty (.temp n) = some d := by
  rw [operand, set_self, Option.filter_some, fits, if_pos rfl]

theorem operand_set_of_below (below : v.Below n) (ty : IRType) :
    (t.set n d).operand ty v = t.operand ty v := by
  cases v with
  | temp i => rw [operand, set_of_ne (Nat.ne_of_lt below), operand]
  | _ => cases ty <;> rfl

theorem word_set_of_below (below : v.Below n) (ty : IRType) :
    (t.set n d).word ty v = t.word ty v := by
  rw [word, operand_set_of_below below, word]

theorem bits_set_of_below (below : v.Below n) : (t.set n d).bits v = t.bits v := by
  rw [bits, word_set_of_below below, bits]

theorem pointer_set_of_below (below : v.Below n) (ty : IRType) :
    (t.set n d).pointer ty v = t.pointer ty v := by
  rw [pointer, operand_set_of_below below, pointer]

theorem bits_set_self (w : BitVec 32) :
    (t.set n (.word (.i32 w))).bits (.temp n) = some w := by
  rw [bits, word, operand_set_self rfl]

theorem word_set_self (b : BitVec 1) :
    (t.set n (.word (.i1 b))).word .i1 (.temp n) = some (.i1 b) := by
  rw [word, operand_set_self rfl]

theorem pointer_set_self (p : Pointer) (ty : IRType) :
    (t.set n (.ptr p)).pointer ty (.temp n) = some p := by
  rw [pointer, operand_set_self rfl]

theorem word_of_bits {w : BitVec 32} (h : t.bits v = some w) : t.word .i32 v = some (.i32 w) := by
  unfold bits at h
  split at h
  · rename_i w' hw
    rw [hw, Option.some.inj h]
  · cases h

theorem operand_of_bits {w : BitVec 32} (h : t.bits v = some w) :
    t.operand .i32 v = some (.word (.i32 w)) := by
  have h := word_of_bits h
  unfold word at h
  split at h
  · rename_i w' hw
    rw [hw, Option.some.inj h]
  · cases h

theorem fits_of_operand {ty : IRType} (h : t.operand ty v = some d) : d.fits ty = true := by
  cases v with
  | temp n => exact (Option.filter_eq_some_iff.mp h).2
  | int n =>
    cases ty with
    | i1 => rw [← Option.some.inj h]; rfl
    | i32 => rw [← Option.some.inj h]; rfl
    | _ => cases h
  | bool b =>
    cases ty with
    | i1 => rw [← Option.some.inj h]; rfl
    | _ => cases h
  | _ => cases ty <;> cases h

theorem bits_int (n : Int) : t.bits (.int n) = some (.ofInt 32 n) := rfl

end Set

end Temps

/-- The value of a temporary, and the memory afterwards. -/
def value (t : Temps) (m : Memory) : Rhs → Option (Datum × Memory)
  | .load ty ptr => do
    let p ← t.pointer ty ptr
    let size ← sizeOf? ty
    let bytes ← m.read p size
    let d ← decode ty bytes
    return (d, m)
  | .arith op ty a b => do
    let a ← t.word ty a
    let b ← t.word ty b
    let w ← op.words a b
    return (.word w, m)
  | .compare cond ty a b => do
    let a ← t.word ty a
    let b ← t.word ty b
    let w ← cond.words a b
    return (.word w, m)
  | .cast .bitcast (.ptr source) v (.ptr _) => do
    let p ← t.pointer source v
    return (.ptr p, m)
  | .cast .trunc .i8 v .i1 =>
    match t.operand .i8 v with
    | some (.byte b) => some (.word (.i1 (b.setWidth 1)), m)
    | _ => none
  | .cast .zext .i1 v .i8 =>
    match t.word .i1 v with
    | some (.i1 b) => some (.byte (b.setWidth 8), m)
    | _ => none
  | .address ty base [i] => do
    let p ← t.pointer ty base
    let size ← sizeOf? ty
    let i ← t.bits i
    return (.ptr ⟨p.block, p.offset + size * i.toInt⟩, m)
  | .call _ (.global f) [(_, count), (_, size)] =>
    if f = Builtin.calloc.name then do
      let count ← t.bits count
      let size ← t.bits size
      return (.ptr ⟨m.length, 0⟩, m.alloc (count.toNat * size.toNat))
    else none
  | _ => none

structure State where
  /-- the lines that come next -/
  rest : List Line
  temps : Temps
  memory : Memory

/-- The next instruction calls a function that stops the program. -/
def State.Trapped (s : State) (b : Builtin) : Prop :=
  ∃ rest, s.rest = .instr (.call .void (.global b.name) []) :: rest

section Step
variable (code : List Line)

/-- Blocks are looked for in all the code. -/
def goto (s : State) (l : Label) : Option State :=
  (blockAt l code).map fun rest => { s with rest }

def exec (s : State) : Instr → Option State
  | .set n rhs => do
    let (d, memory) ← value s.temps s.memory rhs
    return { s with temps := s.temps.set n d, memory }
  | .store ty v ptr => do
    let d ← s.temps.operand ty v
    let p ← s.temps.pointer ty ptr
    let bytes ← d.encode
    let memory ← s.memory.write p bytes
    return { s with memory }
  | .jump l => goto code s l
  | .branch cond yes no =>
    match s.temps.word .i1 cond with
    | some (.i1 b) => goto code s (if b = 1#1 then yes else no)
    | _ => none
  | _ => none

def step (s : State) : Option State :=
  match s.rest with
  | .instr i :: rest => exec code { s with rest } i
  | _ => none

def Reaches : State → State → Prop := Relation.ReflTransGen fun s s' => step code s = some s'

/-- Where a run ends. -/
structure Stops (s f : State) : Prop where
  reaches : Reaches code s f
  last : step code f = none

variable {code} {s s' f f' : State}

theorem Reaches.trans (h : Reaches code s s') (h' : Reaches code s' f) : Reaches code s f :=
  Relation.ReflTransGen.trans h h'

theorem Stops.unique (h : Stops code s f) (h' : Stops code s f') : f = f' := by
  have once : Relator.RightUnique fun s s' => step code s = some s' :=
    fun _ _ _ ha hb => Option.some.inj (ha.symm.trans hb)
  have stuck : ∀ {g g' : State}, step code g = none → Reaches code g g' → g = g' := by
    intro g g' last reaches
    cases Relation.ReflTransGen.cases_head reaches with
    | inl same => exact same
    | inr more =>
      obtain ⟨_, next, _⟩ := more
      cases last.symm.trans next
  rcases Relation.ReflTransGen.total_of_right_unique once h.reaches h'.reaches with more | more
  · exact stuck h.last more
  · exact (stuck h'.last more).symm

theorem Stops.of_reaches (h : Reaches code s s') (h' : Stops code s' f) : Stops code s f :=
  ⟨h.trans h'.reaches, h'.last⟩

theorem Stops.trapped {b : Builtin} (h : s.Trapped b) : Stops code s s := by
  obtain ⟨rest, hrest⟩ := h
  refine ⟨.refl, ?_⟩
  rw [step, hrest]
  rfl

theorem Stops.nil (t : Temps) (m : Memory) : Stops code ⟨[], t, m⟩ ⟨[], t, m⟩ := ⟨.refl, rfl⟩

variable {rest : List Line} {t : Temps} {m : Memory}

theorem Reaches.set {n : Nat} {rhs : Rhs} {d : Datum} {m' : Memory}
    (hd : value t m rhs = some (d, m')) :
    Reaches code ⟨.instr (.set n rhs) :: rest, t, m⟩ ⟨rest, t.set n d, m'⟩ := by
  refine .single ?_
  simp only [step, exec, hd]
  rfl

theorem Reaches.store {ty : IRType} {v ptr : Value} {d : Datum} {p : Pointer}
    {bytes : List (BitVec 8)} {m' : Memory} (hd : t.operand ty v = some d)
    (hp : t.pointer ty ptr = some p) (encoded : d.encode = some bytes)
    (written : m.write p bytes = some m') :
    Reaches code ⟨.instr (.store ty v ptr) :: rest, t, m⟩ ⟨rest, t, m'⟩ := by
  refine .single ?_
  simp only [step, exec, hd, hp, Option.bind_eq_bind, Option.bind_some, encoded, written]
  rfl

theorem Reaches.branch {cond : Value} {yes no : Label} {c : Bool} {lines : List Line}
    (hc : t.word .i1 cond = some (.i1 (.ofBool c))) (once : ∀ l, starts l code ≤ 1)
    (target : .label (if c then yes else no) :: lines <:+ code) :
    Reaches code ⟨.instr (.branch cond yes no) :: rest, t, m⟩ ⟨lines, t, m⟩ := by
  refine .single ?_
  have taken : (if BitVec.ofBool c = 1#1 then yes else no) = if c then yes else no := by
    cases c <;> rfl
  simp only [step, exec, hc, taken, goto]
  rw [blockAt_of_isSuffix (once _) target]
  rfl

end Step

section Value
variable {t : Temps} {m : Memory} {v w : Value}

theorem value_arith (op : Arith) {a b : BitVec 32} (ha : t.bits v = some a)
    (hb : t.bits w = some b) :
    value t m (.arith op .i32 v w) = some (.word (.i32 (op.bits a b)), m) := by
  unfold value
  simp only [Temps.word_of_bits ha, Temps.word_of_bits hb]
  rfl

theorem value_compare (cond : Cond) {a b : BitVec 32} (ha : t.bits v = some a)
    (hb : t.bits w = some b) :
    value t m (.compare cond .i32 v w) = some (.word (.i1 (.ofBool (cond.bits a b))), m) := by
  unfold value
  simp only [Temps.word_of_bits ha, Temps.word_of_bits hb]
  rfl

theorem value_and {a b : Bool} (ha : t.word .i1 v = some (.i1 (.ofBool a)))
    (hb : t.word .i1 w = some (.i1 (.ofBool b))) :
    value t m (.arith .and .i1 v w) = some (.word (.i1 (.ofBool (a && b))), m) := by
  unfold value
  simp only [ha, hb]
  cases a <;> cases b <;> rfl

theorem value_bitcast {source target : IRType} {p : Pointer} (hp : t.pointer source v = some p) :
    value t m (.cast .bitcast (.ptr source) v (.ptr target)) = some (.ptr p, m) := by
  unfold value
  simp only [hp]
  rfl

theorem value_zext {b : BitVec 1} (hv : t.word .i1 v = some (.i1 b)) :
    value t m (.cast .zext .i1 v .i8) = some (.byte (b.setWidth 8), m) := by
  unfold value
  simp only [hv]

theorem value_trunc {b : BitVec 8} (hv : t.operand .i8 v = some (.byte b)) :
    value t m (.cast .trunc .i8 v .i1) = some (.word (.i1 (b.setWidth 1)), m) := by
  unfold value
  simp only [hv]

theorem value_address {ty : IRType} {p : Pointer} {size : Nat} {i : BitVec 32}
    (hp : t.pointer ty v = some p) (hsize : sizeOf? ty = some size) (hi : t.bits w = some i) :
    value t m (.address ty v [w]) = some (.ptr ⟨p.block, p.offset + size * i.toInt⟩, m) := by
  unfold value
  simp only [hp, hsize, hi]
  rfl

theorem value_load {ty : IRType} {p : Pointer} {size : Nat} {bytes : List (BitVec 8)} {d : Datum}
    (hp : t.pointer ty v = some p) (hsize : sizeOf? ty = some size)
    (read : m.read p size = some bytes) (hd : decode ty bytes = some d) :
    value t m (.load ty v) = some (d, m) := by
  unfold value
  simp only [hp, hsize, Option.bind_eq_bind, Option.bind_some, read, hd]
  rfl

/-- Memory for one thing of a size. -/
theorem value_calloc {ty a b : IRType} {size : BitVec 32} (hw : t.bits w = some size) :
    value t m (.call ty (.global Builtin.calloc.name) [(a, .int 1), (b, w)]) =
      some (.ptr ⟨m.length, 0⟩, m.alloc size.toNat) := by
  have one : (BitVec.ofInt 32 1).toNat * size.toNat = size.toNat := Nat.one_mul _
  unfold value
  simp only [if_true, Temps.bits_int, hw, Option.bind_eq_bind, Option.bind_some, one]
  rfl

end Value

end MiniJava.IR.Heap
