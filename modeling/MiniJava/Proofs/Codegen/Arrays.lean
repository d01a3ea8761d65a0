import MiniJava.Proofs.Codegen.Labels
import MiniJava.Proofs.Codegen.Region
import MiniJava.Proofs.IR.Heap

/-!
# Arrays in memory

What the code of arrays does when it is run: a new array asks for memory if the size passes a check,
and an element is found if the index passes another one.
-/
namespace MiniJava.Codegen

open IR IR.Heap

/-- The lines of a new array behind the bytes of its elements; `data` is how many they are. -/
def allocation (index n : Nat) (size data : Value) : List Line := [
  .instr (.set n (.arith .add .i32 data (.int countBytes))),
  .instr (.set (n + 1) (.compare .ge .i32 (.temp n) (.int countBytes))),
  .instr (.branch (.temp (n + 1)) (.block .sizeOk index) (.block .sizeErr index)),
  .label (.block .sizeErr index),
  .instr (.call .void (.global Builtin.negativeSize.name) []),
  .instr .unreachable,
  .label (.block .sizeOk index),
  .instr (.set (n + 2) (callBuiltin .calloc .bytes [(.i32, .int 1), (.i32, .temp n)])),
  .instr (.set (n + 3) (.cast .bitcast .bytes (.temp (n + 2)) (.ptr .i32))),
  .instr (.store .i32 size (.temp (n + 3)))]

theorem newArray_wide {ty : Ty} (wide : isWide ty = true) (size : Value) (k : Cursor) :
    newArray ty size k = ⟨.ok (.temp (k.temps + 4)),
      .instr (.set k.temps (.arith .mul .i32 size (.int 4))) ::
        allocation k.labels.sizes (k.temps + 1) size (.temp k.temps),
      ⟨{ k.labels with sizes := k.labels.sizes + 1 }, k.temps + 5,
        .block .sizeOk k.labels.sizes⟩⟩ := by
  simp only [newArray, if_pos wide]
  rfl

theorem newArray_narrow {ty : Ty} (narrow : ¬ isWide ty = true) (size : Value) (k : Cursor) :
    newArray ty size k = ⟨.ok (.temp (k.temps + 2)),
      allocation k.labels.sizes k.temps size size,
      ⟨{ k.labels with sizes := k.labels.sizes + 1 }, k.temps + 4,
        .block .sizeOk k.labels.sizes⟩⟩ := by
  simp only [newArray, if_neg narrow]
  rfl

/-- The lines that check an index against a length and find the element. -/
def lookup (label n : Nat) (ty : IRType) (shift : Int) (array index length : Value) : List Line := [
  .instr (.set n (.compare .ge .i32 index (.int 0))),
  .instr (.set (n + 1) (.compare .lt .i32 index length)),
  .instr (.set (n + 2) (.arith .and .i1 (.temp n) (.temp (n + 1)))),
  .instr (.branch (.temp (n + 2)) (.block .boundsOk label) (.block .boundsErr label)),
  .label (.block .boundsErr label),
  .instr (.call .void (.global Builtin.outOfBounds.name) []),
  .instr .unreachable,
  .label (.block .boundsOk label),
  .instr (.set (n + 3) (.arith .add .i32 index (.int shift))),
  .instr (.set (n + 4) (.address ty array [.temp (n + 3)]))]

/-- The temporary that the length of an array is loaded into. -/
def lengthTemp (ty : Ty) (n : Nat) : Nat := if isWide ty then n else n + 1

/-- The position of the first element, counted in elements from the start of the array. -/
def firstPosition (ty : Ty) : Int := if isWide ty then 1 else countBytes

/-- The lines that load the length of an array. -/
def lengthLines (ty : Ty) (n : Nat) (array : Value) : List Line :=
  if isWide ty then [.instr (.set n (.load .i32 array))]
  else [.instr (.set n (.cast .bitcast .bytes array (.ptr .i32))),
    .instr (.set (n + 1) (.load .i32 (.temp n)))]

theorem elementPointer_eq (ty : Ty) (array index : Value) (k : Cursor) :
    elementPointer ty array index k = ⟨.ok (.temp (lengthTemp ty k.temps + 5)),
      lengthLines ty k.temps array ++ lookup k.labels.bounds (lengthTemp ty k.temps + 1)
        (storedAs ty) (firstPosition ty) array index (.temp (lengthTemp ty k.temps)),
      ⟨{ k.labels with bounds := k.labels.bounds + 1 }, lengthTemp ty k.temps + 6,
        .block .boundsOk k.labels.bounds⟩⟩ := by
  by_cases wide : isWide ty = true
  · simp only [elementPointer, arrayLength, lengthTemp, firstPosition, lengthLines, storedAs,
      if_pos wide]
    rfl
  · simp only [elementPointer, arrayLength, lengthTemp, firstPosition, lengthLines, storedAs,
      if_neg wide]
    rfl

theorem toNat_of_nonneg {b : BitVec 32} (h : 0 ≤ b.toInt) : (b.toNat : Int) = b.toInt := by
  have cases := BitVec.toInt_eq_toNat_cond b
  split at cases
  · exact cases.symm
  · have := b.isLt
    omega

section Allocation
variable {code tail : List Line} {index n : Nat} {size data : Value} {t : Temps} {m : Memory}
  {a d : BitVec 32} (once : ∀ l, starts l code ≤ 1) (hdata : t.bits data = some d)
include once hdata

/-- The run up to the block that the check of the size leads to. -/
theorem allocation_checked {c : Bool} (check : (4#32).sle (d + 4#32) = c) {lines : List Line}
    (target : .label (if c then .block .sizeOk index else .block .sizeErr index) :: lines <:+
      code) :
    Reaches code ⟨allocation index n size data ++ tail, t, m⟩
      ⟨lines, (t.set n (.word (.i32 (d + 4#32)))).set (n + 1) (.word (.i1 (.ofBool c))), m⟩ := by
  refine Reaches.trans (.set (value_arith .add hdata (Temps.bits_int _))) ?_
  refine Reaches.trans (.set (value_compare .ge (Temps.bits_set_self _) (Temps.bits_int _))) ?_
  subst check
  exact Reaches.branch (Temps.word_set_self _) once target

variable (within : allocation index n size data ++ tail <:+ code)
include within

theorem allocation_refused (small : (d + 4#32).toInt < 4) :
    ∃ f, Stops code ⟨allocation index n size data ++ tail, t, m⟩ f ∧ f.Trapped .negativeSize ∧
      f.memory = m := by
  have check : (4#32).sle (d + 4#32) = false := by
    rw [BitVec.sle_eq_decide]
    exact decide_eq_false (Int.not_le.mpr small)
  have target : .label (.block .sizeErr index) :: _ <:+ code :=
    List.IsSuffix.trans ⟨[_, _, _], rfl⟩ within
  have reaches : Reaches code ⟨allocation index n size data ++ tail, t, m⟩ _ :=
    allocation_checked once hdata check target
  exact ⟨_, .of_reaches reaches (.trapped ⟨_, rfl⟩), ⟨_, rfl⟩, rfl⟩

theorem allocation_granted (hsize : t.bits size = some a) (below : size.Below n)
    (large : 4 ≤ (d + 4#32).toInt) :
    ∃ t', Reaches code ⟨allocation index n size data ++ tail, t, m⟩ ⟨tail, t',
        m ++ [bytesOf 4 a.toNat ++ List.replicate ((d + 4#32).toNat - 4) 0]⟩ ∧
      t'.pointer .i32 (.temp (n + 3)) = some ⟨m.length, 0⟩ ∧
      t'.pointer .i8 (.temp (n + 2)) = some ⟨m.length, 0⟩ := by
  have check : (4#32).sle (d + 4#32) = true := by
    rw [BitVec.sle_eq_decide]
    exact decide_eq_true large
  have target : .label (.block .sizeOk index) :: _ <:+ code :=
    List.IsSuffix.trans ⟨[_, _, _, _, _, _], rfl⟩ within
  have reaches : Reaches code ⟨allocation index n size data ++ tail, t, m⟩ _ :=
    allocation_checked once hdata check target
  generalize ht : (t.set n (.word (.i32 (d + 4#32)))).set (n + 1) (.word (.i1 (.ofBool true))) = t₁
    at reaches
  have htotal : t₁.bits (.temp n) = some (d + 4#32) := by
    rw [← ht, Temps.bits_set_of_below (Value.below_temp (Nat.lt_succ_self n)), Temps.bits_set_self]
  have hsize₁ : t₁.bits size = some a := by
    rw [← ht, Temps.bits_set_of_below (below.mono (Nat.le_succ n)),
      Temps.bits_set_of_below below, hsize]
  have hsize₂ : ((t₁.set (n + 2) (.ptr ⟨m.length, 0⟩)).set (n + 3) (.ptr ⟨m.length, 0⟩)).bits size =
      some a := by
    rw [Temps.bits_set_of_below (below.mono (by omega)), Temps.bits_set_of_below
      (below.mono (by omega)), hsize₁]
  have room : (bytesOf 4 a.toNat).length ≤ (d + 4#32).toNat := by
    have total := toNat_of_nonneg (Int.le_trans (by decide) large)
    rw [length_bytesOf]
    omega
  have written := Memory.write_alloc m room
  rw [length_bytesOf] at written
  refine ⟨(t₁.set (n + 2) (.ptr ⟨m.length, 0⟩)).set (n + 3) (.ptr ⟨m.length, 0⟩), ?_,
    Temps.pointer_set_self _ _, ?_⟩
  · refine reaches.trans (Reaches.trans (.set (value_calloc htotal)) ?_)
    refine Reaches.trans (.set (value_bitcast (Temps.pointer_set_self _ _))) ?_
    exact Reaches.store (Temps.operand_of_bits hsize₂) (Temps.pointer_set_self _ _) rfl written
  · rw [Temps.pointer_set_of_below (Value.below_temp (Nat.lt_succ_self _))]
    exact Temps.pointer_set_self _ _

end Allocation

section Lookup
variable {code tail : List Line} {label n : Nat} {ty : IRType} {shift : Int}
  {array index length : Value} {t : Temps} {m : Memory} {i count : BitVec 32}
  (once : ∀ l, starts l code ≤ 1) (hindex : t.bits index = some i) (below : index.Below n)
  (hlength : t.bits length = some count) (below' : length.Below n)
include once hindex below hlength below'

/-- The run up to the block that the check of the index leads to; only later temporaries are set. -/
theorem lookup_checked (tail : List Line) (m : Memory) (ty : IRType) (shift : Int) (array : Value)
    {c : Bool} (check : ((0#32).sle i && i.slt count) = c) {lines : List Line}
    (target : .label (if c then .block .boundsOk label else .block .boundsErr label) :: lines <:+
      code) :
    ∃ t', Reaches code ⟨lookup label n ty shift array index length ++ tail, t, m⟩ ⟨lines, t', m⟩ ∧
      ∀ v, v.Below n → ∀ ty, t'.operand ty v = t.operand ty v := by
  generalize ht : t.set n (.word (.i1 (.ofBool ((0#32).sle i)))) = t₁
  have first : t₁.word .i1 (.temp n) = some (.i1 (.ofBool ((0#32).sle i))) := by
    rw [← ht, Temps.word_set_self]
  have hindex₁ : t₁.bits index = some i := by rw [← ht, Temps.bits_set_of_below below, hindex]
  have hlength₁ : t₁.bits length = some count := by
    rw [← ht, Temps.bits_set_of_below below', hlength]
  generalize ht₁ : t₁.set (n + 1) (.word (.i1 (.ofBool (i.slt count)))) = t₂
  have first₂ : t₂.word .i1 (.temp n) = some (.i1 (.ofBool ((0#32).sle i))) := by
    rw [← ht₁, Temps.word_set_of_below (Value.below_temp (Nat.lt_succ_self n)), first]
  have second : t₂.word .i1 (.temp (n + 1)) = some (.i1 (.ofBool (i.slt count))) := by
    rw [← ht₁, Temps.word_set_self]
  refine ⟨t₂.set (n + 2) (.word (.i1 (.ofBool ((0#32).sle i && i.slt count)))), ?_, ?_⟩
  · subst ht₁ ht check
    refine Reaches.trans (.set (value_compare .ge hindex (Temps.bits_int 0))) ?_
    refine Reaches.trans (.set (value_compare .lt hindex₁ hlength₁)) ?_
    refine Reaches.trans (.set (value_and first₂ second)) ?_
    exact Reaches.branch (Temps.word_set_self _) once target
  · intro v hv ty
    rw [Temps.operand_set_of_below (hv.mono (by omega)), ← ht₁,
      Temps.operand_set_of_below (hv.mono (by omega)), ← ht, Temps.operand_set_of_below hv]

variable (within : lookup label n ty shift array index length ++ tail <:+ code)
include within

theorem lookup_refused (outside : ¬ (0 ≤ i.toInt ∧ i.toInt < count.toInt)) :
    ∃ f, Stops code ⟨lookup label n ty shift array index length ++ tail, t, m⟩ f ∧
      f.Trapped .outOfBounds ∧ f.memory = m := by
  have check : ((0#32).sle i && i.slt count) = false := by
    rw [BitVec.sle_eq_decide, BitVec.slt_eq_decide, ← Bool.decide_and]
    exact decide_eq_false outside
  have target : .label (.block .boundsErr label) :: _ <:+ code :=
    List.IsSuffix.trans ⟨[_, _, _, _], rfl⟩ within
  obtain ⟨t', reaches, _⟩ :=
    lookup_checked once hindex below hlength below' tail m ty shift array check target
  exact ⟨_, .of_reaches reaches (.trapped ⟨_, rfl⟩), ⟨_, rfl⟩, rfl⟩

theorem lookup_granted {size : Nat} (hsize : sizeOf? ty = some size) {p : Pointer}
    (harray : t.pointer ty array = some p) (below'' : array.Below n)
    (inside : 0 ≤ i.toInt ∧ i.toInt < count.toInt) :
    ∃ t', Reaches code ⟨lookup label n ty shift array index length ++ tail, t, m⟩ ⟨tail, t', m⟩ ∧
      t'.pointer ty (.temp (n + 4)) =
        some ⟨p.block, p.offset + size * (i + .ofInt 32 shift).toInt⟩ := by
  have check : ((0#32).sle i && i.slt count) = true := by
    rw [BitVec.sle_eq_decide, BitVec.slt_eq_decide, ← Bool.decide_and]
    exact decide_eq_true inside
  have target : .label (.block .boundsOk label) :: _ <:+ code :=
    List.IsSuffix.trans ⟨[_, _, _, _, _, _, _], rfl⟩ within
  obtain ⟨t', reaches, keeps⟩ :=
    lookup_checked once hindex below hlength below' tail m ty shift array check target
  have hindex' : t'.bits index = some i := by
    rw [Temps.bits, Temps.word, keeps index below]
    exact hindex
  have harray' :
      (t'.set (n + 3) (.word (.i32 (i + .ofInt 32 shift)))).pointer ty array = some p := by
    rw [Temps.pointer_set_of_below (below''.mono (by omega)), Temps.pointer, keeps array below'']
    exact harray
  have found := reaches.trans (Reaches.trans (.set (value_arith .add hindex' (Temps.bits_int _)))
    (.set (value_address harray' hsize (Temps.bits_set_self _))))
  exact ⟨_, found, Temps.pointer_set_self _ _⟩

end Lookup

/-- What is asked for, with the wrap-around of 32 bits. -/
def requested (ty : Ty) (count : BitVec 32) : BitVec 32 :=
  (if isWide ty then count * 4#32 else count) + 4#32

section NewArray
variable {code tail : List Line} {ty : Ty} {size : Value} {k : Cursor} {t : Temps} {m : Memory}
  {count : BitVec 32} (once : ∀ l, starts l code ≤ 1)
  (within : (newArray ty size k).code ++ tail <:+ code) (hsize : t.bits size = some count)
include once within hsize

theorem newArray_refused (small : (requested ty count).toInt < 4) :
    ∃ f, Stops code ⟨(newArray ty size k).code ++ tail, t, m⟩ f ∧ f.Trapped .negativeSize ∧
      f.memory = m := by
  by_cases wide : isWide ty = true
  · rw [requested, if_pos wide] at small
    rw [newArray_wide wide] at within ⊢
    obtain ⟨f, stops, outcome⟩ := allocation_refused once (Temps.bits_set_self _)
      ((List.suffix_cons _ _).trans within) small
    exact ⟨f, stops.of_reaches (.set (value_arith .mul hsize (Temps.bits_int 4))), outcome⟩
  · rw [requested, if_neg wide] at small
    rw [newArray_narrow wide] at within ⊢
    exact allocation_refused once hsize within small

theorem newArray_granted (below : size.Below k.temps) (large : 4 ≤ (requested ty count).toInt) :
    ∃ r t', (newArray ty size k).result = .ok r ∧
      Reaches code ⟨(newArray ty size k).code ++ tail, t, m⟩ ⟨tail, t', m ++
        [bytesOf 4 count.toNat ++ List.replicate ((requested ty count).toNat - 4) 0]⟩ ∧
      t'.pointer (storedAs ty) r = some ⟨m.length, 0⟩ := by
  by_cases wide : isWide ty = true
  · rw [requested, if_pos wide] at large ⊢
    rw [newArray_wide wide] at within ⊢
    have hsize' : (t.set k.temps (.word (.i32 (count * 4#32)))).bits size = some count := by
      rw [Temps.bits_set_of_below below, hsize]
    obtain ⟨t', reaches, pointer, _⟩ := allocation_granted once (Temps.bits_set_self _)
      ((List.suffix_cons _ _).trans within) hsize' (below.mono (Nat.le_succ _)) large
    rw [storedAs, if_pos wide]
    exact ⟨_, t', rfl, .trans (.set (value_arith .mul hsize (Temps.bits_int 4))) reaches, pointer⟩
  · rw [requested, if_neg wide] at large ⊢
    rw [newArray_narrow wide] at within ⊢
    obtain ⟨t', reaches, _, pointer⟩ :=
      allocation_granted once hsize within hsize below large
    rw [storedAs, if_neg wide]
    exact ⟨_, t', rfl, reaches, pointer⟩

end NewArray

/-- Bytes of an element. -/
def width (ty : Ty) : Nat := if isWide ty then 4 else 1

/-- Where an element begins, counted from the start of its array. -/
def elementOffset (ty : Ty) (i : BitVec 32) : Int := countBytes + width ty * i.toInt

/-- A block of some bytes that begins with a count. -/
def HoldsArray (m : Memory) (b size : Nat) (count : BitVec 32) : Prop :=
  ∃ bytes, m[b]? = some bytes ∧ bytes.length = size ∧ bytes.take 4 = bytesOf 4 count.toNat

theorem HoldsArray.load {m : Memory} {b size : Nat} {count : BitVec 32}
    (h : HoldsArray m b size count) {t : Temps} {v : Value} (hv : t.pointer .i32 v = some ⟨b, 0⟩) :
    value t m (.load .i32 v) = some (.word (.i32 count), m) := by
  obtain ⟨bytes, hb, _, first⟩ := h
  have inside : Inside 0 4 bytes := by
    have length := congrArg List.length first
    rw [List.length_take, length_bytesOf] at length
    exact ⟨Int.le_refl 0, by omega⟩
  have read : m.read ⟨b, 0⟩ 4 = some (bytesOf 4 count.toNat) := by
    rw [Memory.read_eq hb inside, ← first]
    rfl
  exact value_load hv rfl read (decode_bytesOf count)

theorem sizeOf_storedAs (ty : Ty) : sizeOf? (storedAs ty) = some (width ty) := by
  rw [storedAs, width]
  split <;> rfl

theorem toInt_add_ofInt {i : BitVec 32} {n : Int} (low : 0 ≤ i.toInt) (pos : 0 ≤ n)
    (high : i.toInt + n < 2 ^ 31) : (i + .ofInt 32 n).toInt = i.toInt + n := by
  have small : n.bmod (2 ^ 32) = n := Int.bmod_eq_of_le (by omega) (by omega)
  rw [BitVec.toInt_add, BitVec.toInt_ofInt, small]
  exact Int.bmod_eq_of_le (by omega) (by omega)

/-- The position of an element does not wrap around if the array is not too large. -/
theorem width_mul_position {ty : Ty} {i : BitVec 32} (low : 0 ≤ i.toInt)
    (high : i.toInt + 4 < 2 ^ 31) :
    0 + width ty * (i + .ofInt 32 (firstPosition ty)).toInt = elementOffset ty i := by
  rw [elementOffset, width, firstPosition, countBytes]
  split
  · rw [toInt_add_ofInt low (by omega) (by omega)]
    push_cast
    omega
  · rw [toInt_add_ofInt low (by omega) (by push_cast; omega)]
    push_cast
    omega

theorem le_lengthTemp (ty : Ty) (n : Nat) : n ≤ lengthTemp ty n := by
  rw [lengthTemp]
  split <;> omega

section Element
variable {code tail : List Line} {ty : Ty} {array index : Value} {k : Cursor} {t : Temps}
  {m : Memory} {b size : Nat} {i count : BitVec 32}
  (harray : t.pointer (storedAs ty) array = some ⟨b, 0⟩) (holds : HoldsArray m b size count)
include harray holds

theorem length_reaches (code tail : List Line) (n : Nat) :
    ∃ t', Reaches code ⟨lengthLines ty n array ++ tail, t, m⟩ ⟨tail, t', m⟩ ∧
      t'.bits (.temp (lengthTemp ty n)) = some count ∧
      ∀ v, v.Below n → ∀ ty, t'.operand ty v = t.operand ty v := by
  by_cases wide : isWide ty = true
  · rw [storedAs, if_pos wide] at harray
    rw [lengthLines, lengthTemp, if_pos wide, if_pos wide]
    exact ⟨_, .set (holds.load harray), Temps.bits_set_self _,
      fun v hv ty => Temps.operand_set_of_below hv ty⟩
  · rw [storedAs, if_neg wide] at harray
    rw [lengthLines, lengthTemp, if_neg wide, if_neg wide]
    refine ⟨_, .trans (.set (value_bitcast harray))
      (.set (holds.load (Temps.pointer_set_self _ _))), Temps.bits_set_self _, fun v hv ty => ?_⟩
    rw [Temps.operand_set_of_below (hv.mono (Nat.le_succ n)), Temps.operand_set_of_below hv]

variable (once : ∀ l, starts l code ≤ 1)
  (within : (elementPointer ty array index k).code ++ tail <:+ code)
  (hindex : t.bits index = some i) (below' : index.Below k.temps)
include once within hindex below'

theorem elementPointer_refused (outside : ¬ (0 ≤ i.toInt ∧ i.toInt < count.toInt)) :
    ∃ f, Stops code ⟨(elementPointer ty array index k).code ++ tail, t, m⟩ f ∧
      f.Trapped .outOfBounds ∧ f.memory = m := by
  rw [elementPointer_eq, List.append_assoc] at within ⊢
  obtain ⟨t', reaches, hlength, keeps⟩ := length_reaches harray holds code _ k.temps
  have hindex' : t'.bits index = some i := by
    rw [Temps.bits, Temps.word, keeps index below']
    exact hindex
  have later := Nat.le_succ_of_le (le_lengthTemp ty k.temps)
  obtain ⟨f, stops, outcome⟩ := lookup_refused once hindex' (below'.mono later) hlength
    (Value.below_temp (Nat.lt_succ_self _)) ((List.suffix_append _ _).trans within) outside
  exact ⟨f, stops.of_reaches reaches, outcome⟩

theorem elementPointer_granted (below : array.Below k.temps)
    (inside : 0 ≤ i.toInt ∧ i.toInt < count.toInt) (small : i.toInt + 4 < 2 ^ 31) :
    ∃ r t', (elementPointer ty array index k).result = .ok r ∧
      Reaches code ⟨(elementPointer ty array index k).code ++ tail, t, m⟩ ⟨tail, t', m⟩ ∧
      t'.pointer (storedAs ty) r = some ⟨b, elementOffset ty i⟩ := by
  rw [elementPointer_eq, List.append_assoc] at within
  rw [elementPointer_eq, List.append_assoc]
  obtain ⟨t', reaches, hlength, keeps⟩ := length_reaches harray holds code _ k.temps
  have hindex' : t'.bits index = some i := by
    rw [Temps.bits, Temps.word, keeps index below']
    exact hindex
  have harray' : t'.pointer (storedAs ty) array = some ⟨b, 0⟩ := by
    rw [Temps.pointer, keeps array below]
    exact harray
  have later := Nat.le_succ_of_le (le_lengthTemp ty k.temps)
  obtain ⟨t'', found, pointer⟩ := lookup_granted once hindex' (below'.mono later) hlength
    (Value.below_temp (Nat.lt_succ_self _)) ((List.suffix_append _ _).trans within)
    (sizeOf_storedAs ty) harray' (below.mono later) inside
  rw [width_mul_position inside.1 small] at pointer
  exact ⟨_, t'', rfl, reaches.trans found, pointer⟩

end Element

end MiniJava.Codegen
