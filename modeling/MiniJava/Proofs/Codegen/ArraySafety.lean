import MiniJava.Proofs.Codegen.Arrays

/-!
# Memory safety of arrays

A new array should stop the program or have room for all its elements, and then an index should find
an element exactly if it is below the count. The check of the size is made on the number of bytes,
which wraps around: an array of integers is safe for the sizes from 0 up whose bytes can be counted
and for those that the check refuses, and for no others.
-/
namespace MiniJava.Codegen

open IR IR.Heap

/-- The code stops in a state when it is run on its own. -/
def Finishes (code : List Line) (t : Temps) (m : Memory) (f : Heap.State) : Prop :=
  Stops code ⟨code, t, m⟩ f

/-- Every access to an array of a count in a block of some bytes: the index finds an element exactly
if it is below the count, the element lies in the block behind the count, and no two elements share
a byte. -/
structure AccessSafe (ty : Ty) (size : Nat) (count : BitVec 32) : Prop where
  checked : ∀ (k : Cursor) (array index : Value) (t : Temps) (m : Memory) (b : Nat) (i : BitVec 32),
    array.Below k.temps → index.Below k.temps → t.pointer (storedAs ty) array = some ⟨b, 0⟩ →
    t.bits index = some i → HoldsArray m b size count →
    ∃ element f, (elementPointer ty array index k).result = .ok element ∧
      Finishes (elementPointer ty array index k).code t m f ∧ f.memory = m ∧
      if 0 ≤ i.toInt ∧ i.toInt < count.toInt then
        f.rest = [] ∧ f.temps.pointer (storedAs ty) element = some ⟨b, elementOffset ty i⟩
      else f.Trapped .outOfBounds
  inside : ∀ i : BitVec 32, 0 ≤ i.toInt → i.toInt < count.toInt →
    countBytes ≤ elementOffset ty i ∧ elementOffset ty i + width ty ≤ size
  apart : ∀ i j : BitVec 32, i ≠ j → elementOffset ty i + width ty ≤ elementOffset ty j ∨
    elementOffset ty j + width ty ≤ elementOffset ty i

/-- A block with room for all elements has been asked for and holds the count. -/
structure Allocated (ty : Ty) (count : BitVec 32) (m : Memory) (array : Value) (f : Heap.State)
    (bytes : List (BitVec 8)) : Prop where
  memory : f.memory = m ++ [bytes]
  room : countBytes + width ty * count.toInt ≤ bytes.length
  counted : bytes.take countBytes = bytesOf countBytes count.toNat
  rest : f.rest = []
  array : f.temps.pointer (storedAs ty) array = some ⟨m.length, 0⟩
  access : AccessSafe ty bytes.length count

/-- Where the code of a new array may stop. -/
structure AllocationSafe (ty : Ty) (count : BitVec 32) (m : Memory) (array : Value)
    (f : Heap.State) : Prop where
  negative : count.toInt < 0 → f.Trapped .negativeSize
  requested : f.memory ≠ m → 0 ≤ count.toInt ∧ ∃ bytes, Allocated ty count m array f bytes

/-- Arrays of a type are safe if they have a number of elements. -/
def MemorySafe (ty : Ty) (count : BitVec 32) : Prop :=
  ∀ (k : Cursor) (size : Value) (t : Temps) (m : Memory), size.Below k.temps →
    t.bits size = some count → ∃ array f, (newArray ty size k).result = .ok array ∧
      Finishes (newArray ty size k).code t m f ∧ AllocationSafe ty count m array f

section Requested
variable {ty : Ty} {count : BitVec 32}

theorem toInt_requested_wide (wide : isWide ty = true) :
    if count.toInt % 2 ^ 30 ≤ 2 ^ 29 - 2 then
      (requested ty count).toInt = 4 * (count.toInt % 2 ^ 30) + 4
    else (requested ty count).toInt < 4 := by
  have signed := BitVec.toInt_eq_toNat_cond count
  have total := BitVec.toInt_eq_toNat_cond (count * 4#32 + 4#32)
  have bytes : (count * 4#32 + 4#32).toNat = (count.toNat * 4 % 2 ^ 32 + 4) % 2 ^ 32 := by
    rw [BitVec.toNat_add, BitVec.toNat_mul]
    rfl
  have bound := count.isLt
  rw [requested, if_pos wide]
  rw [bytes] at total
  split at signed <;> split at total <;> split <;> omega

theorem toInt_requested_narrow (narrow : ¬ isWide ty = true) :
    if 0 ≤ count.toInt ∧ count.toInt + 4 < 2 ^ 31 then
      (requested ty count).toInt = count.toInt + 4
    else (requested ty count).toInt < 4 := by
  have signed := BitVec.toInt_eq_toNat_cond count
  have total := BitVec.toInt_eq_toNat_cond (count + 4#32)
  have bytes : (count + 4#32).toNat = (count.toNat + 4) % 2 ^ 32 := by
    rw [BitVec.toNat_add]
    rfl
  have bound := count.isLt
  rw [requested, if_neg narrow]
  rw [bytes] at total
  split at signed <;> split at total <;> split <;> omega

end Requested

/-- The blocks of a step that takes a number are started once in its code. -/
theorem Numbered.starts_le_one_of_nil {α : Type} {x : Gen α} (h : Numbered [] x) (k : Cursor)
    (l : Label) : starts l (x k).code ≤ 1 := by
  refine Nat.le_trans ((h k).2 l) ?_
  rw [List.count_nil, Nat.zero_add]
  exact LabelCounters.given_le_one _ _ _

theorem width_cases (ty : Ty) : width ty = 4 ∨ width ty = 1 := by
  rw [width]
  split
  · exact Or.inl rfl
  · exact Or.inr rfl

theorem elementOffset_apart (ty : Ty) {i j : BitVec 32} (other : i ≠ j) :
    elementOffset ty i + width ty ≤ elementOffset ty j ∨
      elementOffset ty j + width ty ≤ elementOffset ty i := by
  have other : i.toInt ≠ j.toInt := fun same => other (BitVec.eq_of_toInt_eq same)
  rw [elementOffset, elementOffset]
  rcases width_cases ty with wide | narrow
  · rw [wide]
    omega
  · rw [narrow]
    omega

section Room
variable {ty : Ty} {size : Nat} {count i : BitVec 32}
  (room : countBytes + width ty * count.toInt ≤ size) (low : 0 ≤ i.toInt)
  (high : i.toInt < count.toInt)
include room low high

theorem elementOffset_inside :
    countBytes ≤ elementOffset ty i ∧ elementOffset ty i + width ty ≤ size := by
  rw [elementOffset]
  rcases width_cases ty with wide | narrow
  · rw [wide] at room ⊢
    omega
  · rw [narrow] at room ⊢
    omega

omit low in
/-- An index that is below the count is so far from wrapping around as the count is bytes long. -/
theorem index_small (small : size < 2 ^ 31) : i.toInt + 4 < 2 ^ 31 := by
  rw [countBytes] at room
  rcases width_cases ty with wide | narrow
  · rw [wide] at room
    omega
  · rw [narrow] at room
    omega

end Room

theorem accessSafe {ty : Ty} {size : Nat} {count : BitVec 32}
    (room : countBytes + width ty * count.toInt ≤ size) (small : size < 2 ^ 31) :
    AccessSafe ty size count where
  checked := by
    intro k array index t m b i below below' harray hindex holds
    have once := (Numbered.elementPointer ty array index).starts_le_one_of_nil k
    generalize hcode : (elementPointer ty array index k).code = code at once
    have within : (elementPointer ty array index k).code ++ [] <:+ code :=
      ⟨[], by rw [List.nil_append, List.append_nil, hcode]⟩
    by_cases inside : 0 ≤ i.toInt ∧ i.toInt < count.toInt
    · obtain ⟨r, t', result, reaches, pointer⟩ := elementPointer_granted harray holds once within
        hindex below' below inside (index_small room inside.2 small)
      rw [hcode, List.append_nil] at reaches
      refine ⟨r, _, result, .of_reaches reaches (.nil _ _), rfl, ?_⟩
      rw [if_pos inside]
      exact ⟨rfl, pointer⟩
    · obtain ⟨f, stops, trapped, memory⟩ := elementPointer_refused harray holds once within hindex
        below' inside
      rw [hcode, List.append_nil] at stops
      refine ⟨_, f, congrArg Emitted.result (elementPointer_eq ty array index k), stops, memory, ?_⟩
      rw [if_neg inside]
      exact trapped
  inside := fun i low high => elementOffset_inside room low high
  apart := fun i j other => elementOffset_apart ty other

section Allocations
variable {ty : Ty} {count : BitVec 32}

/-- If memory is asked for, it is enough: for booleans always, for integers if the size has not been
wrapped around. -/
theorem requested_exact (large : 4 ≤ (requested ty count).toInt)
    (fits : isWide ty = true → 2 ^ 29 - 2 < count.toInt % 2 ^ 30 ∨
      0 ≤ count.toInt ∧ count.toInt ≤ 2 ^ 29 - 2) :
    0 ≤ count.toInt ∧ (requested ty count).toInt = countBytes + width ty * count.toInt := by
  rw [countBytes, width]
  by_cases wide : isWide ty = true
  · have total := @toInt_requested_wide ty count wide
    rw [if_pos wide]
    split at total
    · have fits := fits wide
      omega
    · omega
  · have total := @toInt_requested_narrow ty count wide
    rw [if_neg wide]
    split at total <;> omega

theorem newArray_result (ty : Ty) (size : Value) (k : Cursor) :
    ∃ array, (newArray ty size k).result = .ok array := by
  by_cases wide : isWide ty = true
  · exact ⟨_, congrArg Emitted.result (newArray_wide wide size k)⟩
  · exact ⟨_, congrArg Emitted.result (newArray_narrow wide size k)⟩

theorem newArray_within (size : Value) (k : Cursor) :
    (newArray ty size k).code ++ [] <:+ (newArray ty size k).code :=
  ⟨[], by rw [List.nil_append, List.append_nil]⟩

section Run
variable {size : Value} {k : Cursor} {t : Temps} (m : Memory) (hsize : t.bits size = some count)
include hsize

theorem newArray_traps (small : (requested ty count).toInt < 4) :
    ∃ f, Finishes (newArray ty size k).code t m f ∧ f.Trapped .negativeSize ∧ f.memory = m := by
  have once := (Numbered.newArray ty size).starts_le_one_of_nil k
  obtain ⟨f, stops, outcome⟩ := newArray_refused once (newArray_within size k) hsize small
  rw [List.append_nil] at stops
  exact ⟨f, stops, outcome⟩

theorem newArray_allocates (below : size.Below k.temps) (large : 4 ≤ (requested ty count).toInt) :
    ∃ array f bytes, (newArray ty size k).result = .ok array ∧
      Finishes (newArray ty size k).code t m f ∧ f.memory = m ++ [bytes] ∧
      bytes.length = (requested ty count).toNat ∧ bytes.take 4 = bytesOf 4 count.toNat ∧
      f.rest = [] ∧ f.temps.pointer (storedAs ty) array = some ⟨m.length, 0⟩ := by
  have once := (Numbered.newArray ty size).starts_le_one_of_nil k
  obtain ⟨r, t', result, reaches, pointer⟩ :=
    newArray_granted once (newArray_within size k) hsize below large
  rw [List.append_nil] at reaches
  have nonneg := toNat_of_nonneg (Int.le_trans (by decide) large)
  refine ⟨r, _, _, result, .of_reaches reaches (.nil _ _), rfl, ?_, ?_, rfl, pointer⟩
  · rw [List.length_append, length_bytesOf, List.length_replicate]
    omega
  · exact List.take_left' (length_bytesOf 4 _)

end Run

theorem memorySafe_of_fits (fits : isWide ty = true → 2 ^ 29 - 2 < count.toInt % 2 ^ 30 ∨
    0 ≤ count.toInt ∧ count.toInt ≤ 2 ^ 29 - 2) : MemorySafe ty count := by
  intro k size t m below hsize
  by_cases large : 4 ≤ (requested ty count).toInt
  · obtain ⟨nonneg, exact⟩ := requested_exact large fits
    obtain ⟨array, f, bytes, result, finishes, memory, length, counted, rest, pointer⟩ :=
      newArray_allocates m hsize below large
    have total := toNat_of_nonneg (Int.le_trans (by decide) large)
    have room : countBytes + width ty * count.toInt ≤ bytes.length :=
      Int.le_of_eq (by rw [length, total, exact])
    have small : bytes.length < 2 ^ 31 := by
      have bound := BitVec.toInt_lt (x := requested ty count)
      rw [length]
      omega
    exact ⟨array, f, result, finishes, fun negative => absurd nonneg (Int.not_le.mpr negative),
      fun _ => ⟨nonneg, bytes, memory, room, counted, rest, pointer, accessSafe room small⟩⟩
  · obtain ⟨f, finishes, trapped, memory⟩ := newArray_traps m hsize (Int.not_le.mp large)
    obtain ⟨array, result⟩ := newArray_result ty size k
    exact ⟨array, f, result, finishes, fun _ => trapped, fun changed => absurd memory changed⟩

/-- If the size wraps around to one that passes the check, the memory is too small for it. -/
theorem fits_of_memorySafe (safe : MemorySafe ty count) (wide : isWide ty = true) :
    2 ^ 29 - 2 < count.toInt % 2 ^ 30 ∨ 0 ≤ count.toInt ∧ count.toInt ≤ 2 ^ 29 - 2 := by
  by_cases checked : 2 ^ 29 - 2 < count.toInt % 2 ^ 30
  · exact Or.inl checked
  have total := @toInt_requested_wide ty count wide
  rw [if_pos (Int.not_lt.mp checked)] at total
  have large : 4 ≤ (requested ty count).toInt := by omega
  have below : (Value.int count.toInt).Below 0 := trivial
  have hsize : Temps.empty.bits (.int count.toInt) = some count := by
    rw [Temps.bits_int, BitVec.ofInt_toInt]
  obtain ⟨_, f, bytes, _, finishes, memory, length, _⟩ :=
    newArray_allocates (k := { labels := {} }) [] hsize below large
  obtain ⟨_, f', _, finishes', _, requested⟩ := safe { labels := {} } _ _ [] below hsize
  cases finishes.unique finishes'
  have changed : f.memory ≠ [] := by
    rw [memory]
    exact List.cons_ne_nil _ _
  obtain ⟨nonneg, bytes', allocated⟩ := requested changed
  have same : bytes = bytes' :=
    List.cons.inj (memory.symm.trans allocated.memory) |>.1
  have room := allocated.room
  have exact := toNat_of_nonneg (Int.le_trans (by decide) large)
  rw [← same, length, exact, total, countBytes, width, if_pos wide] at room
  refine Or.inr ⟨nonneg, ?_⟩
  omega

/-- Arrays of booleans are always safe. An array of integers is not if four times its size wraps
around to a number of bytes that passes the check. -/
theorem memorySafe_iff (ty : Ty) (count : BitVec 32) : MemorySafe ty count ↔
    (isWide ty = true → 2 ^ 29 - 2 < count.toInt % 2 ^ 30 ∨
      0 ≤ count.toInt ∧ count.toInt ≤ 2 ^ 29 - 2) :=
  ⟨fits_of_memorySafe, memorySafe_of_fits⟩

/-- The smallest number passes for a size: no memory at all is asked for its elements. -/
theorem not_memorySafe_smallest : ¬ MemorySafe .intArray (.ofInt 32 (-2147483648)) := by
  intro safe
  have fits := fits_of_memorySafe safe rfl
  revert fits
  decide

end Allocations

end MiniJava.Codegen
