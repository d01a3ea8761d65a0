import MiniJava.Proofs.Codegen.ArraySafety

/-!
# Elements of arrays

An element is read as it was written last. What is written to one element changes no other one, no
other array, and not the count, so an array stays one whatever is stored in it.
-/
namespace MiniJava.Codegen

open IR IR.Heap

/-- The type of an element outside memory. -/
def elementIr (ty : Ty) : IRType := if isWide ty then .i32 else .i1

/-- How an element is kept in memory: a truth value takes up a byte. -/
def stored : Word → Datum
  | .i32 w => .word (.i32 w)
  | .i1 b => .byte (b.setWidth 8)

/-- An element of an array in memory. -/
def element? (ty : Ty) (m : Memory) (b : Nat) (i : BitVec 32) : Option Datum :=
  (m.read ⟨b, elementOffset ty i⟩ (width ty)).bind (decode (storedAs ty))

theorem encode_stored {ty : Ty} {w : Word} (fits : w.fits (elementIr ty) = true) :
    ∃ bytes, (stored w).encode = some bytes ∧ bytes.length = width ty ∧
      decode (storedAs ty) bytes = some (stored w) := by
  rw [elementIr] at fits
  rw [width, storedAs]
  split at fits
  · rename_i wide
    rw [if_pos wide, if_pos wide]
    cases w with
    | i32 w => exact ⟨_, rfl, length_bytesOf 4 _, decode_bytesOf w⟩
    | i1 b => cases fits
  · rename_i narrow
    rw [if_neg narrow, if_neg narrow]
    cases w with
    | i32 w => cases fits
    | i1 b => exact ⟨_, rfl, rfl, rfl⟩

section Run
variable {code tail : List Line} {ty : Ty} {element value : Value} {k : Cursor} {t : Temps}
  {m m' : Memory} {w : Word} {p : Pointer}

theorem storeElement_reaches {bytes : List (BitVec 8)}
    (hvalue : t.operand (elementIr ty) value = some (.word w))
    (helement : t.pointer (storedAs ty) element = some p) (below : element.Below k.temps)
    (encoded : (stored w).encode = some bytes) (written : m.write p bytes = some m') :
    ∃ t', Reaches code ⟨(storeElement ty element value k).code ++ tail, t, m⟩ ⟨tail, t', m'⟩ := by
  have fits := Temps.fits_of_operand hvalue
  by_cases wide : isWide ty = true
  · rw [elementIr, if_pos wide] at hvalue fits
    rw [storedAs, if_pos wide] at helement
    rw [storeElement, if_pos wide]
    cases w with
    | i32 w => exact ⟨t, .store hvalue helement encoded written⟩
    | i1 b => cases fits
  · rw [elementIr, if_neg wide] at hvalue fits
    rw [storedAs, if_neg wide] at helement
    rw [storeElement, if_neg wide]
    cases w with
    | i32 w => cases fits
    | i1 b =>
      have word : t.word .i1 value = some (.i1 b) := by rw [Temps.word, hvalue]
      rw [← Temps.pointer_set_of_below (d := .byte (b.setWidth 8)) below] at helement
      exact ⟨_, .trans (.set (value_zext word))
        (.store (Temps.operand_set_self rfl) helement encoded written)⟩

theorem loadElement_reaches {b : Nat} {i : BitVec 32} (fits : w.fits (elementIr ty) = true)
    (helement : t.pointer (storedAs ty) element = some ⟨b, elementOffset ty i⟩)
    (held : element? ty m b i = some (stored w)) :
    ∃ r t', (loadElement ty element k).result = .ok r ∧
      Reaches code ⟨(loadElement ty element k).code ++ tail, t, m⟩ ⟨tail, t', m⟩ ∧
      t'.operand (elementIr ty) r = some (.word w) := by
  obtain ⟨bytes, read, decoded⟩ := Option.bind_eq_some_iff.mp held
  have loaded := value_load helement (sizeOf_storedAs ty) read decoded
  by_cases wide : isWide ty = true
  · rw [elementIr, if_pos wide] at fits ⊢
    rw [storedAs, if_pos wide] at loaded
    rw [loadElement, if_pos wide]
    cases w with
    | i32 w => exact ⟨_, _, rfl, .set loaded, Temps.operand_set_self rfl⟩
    | i1 b => cases fits
  · rw [elementIr, if_neg wide] at fits ⊢
    rw [storedAs, if_neg wide] at loaded
    rw [loadElement, if_neg wide]
    cases w with
    | i32 w => cases fits
    | i1 b =>
      have cut : (b.setWidth 8).setWidth 1 = b := by
        rw [BitVec.setWidth_setWidth_of_le _ (by decide), BitVec.setWidth_eq]
      have byte : (t.set k.temps (.byte (b.setWidth 8))).operand .i8 (.temp k.temps) =
          some (.byte (b.setWidth 8)) := Temps.operand_set_self rfl
      have trunc := value_trunc (m := m) byte
      rw [cut] at trunc
      exact ⟨_, _, rfl, .trans (.set loaded) (.set trunc), Temps.operand_set_self rfl⟩

theorem HoldsArray.write {b size : Nat} {count : BitVec 32} (h : HoldsArray m b size count)
    {bytes : List (BitVec 8)} (written : m.write p bytes = some m')
    (behind : p.block = b → countBytes ≤ p.offset) : HoldsArray m' b size count := by
  obtain ⟨old, hb, length, first⟩ := h
  by_cases same : b = p.block
  · subst same
    obtain ⟨old', hb', inside, new⟩ := Memory.block_write_self written
    obtain rfl := Option.some.inj (hb.symm.trans hb')
    refine ⟨_, new, (length_patch inside.room).trans length, ?_⟩
    rw [← first]
    refine List.ext_getElem? fun j => ?_
    rw [List.getElem?_take, List.getElem?_take, getElem?_patch inside.room]
    split
    · have behind := behind rfl
      rw [countBytes] at behind
      exact if_neg (by omega)
    · rfl
  · exact ⟨old, (Memory.block_write written same).trans hb, length, first⟩

variable {b size : Nat} {i count : BitVec 32}

/-- A value that is stored in an element is what the element holds; everything else stays. -/
theorem storeElement_updates (hvalue : t.operand (elementIr ty) value = some (.word w))
    (helement : t.pointer (storedAs ty) element = some ⟨b, elementOffset ty i⟩)
    (below : element.Below k.temps) (holds : HoldsArray m b size count)
    (room : countBytes + width ty * count.toInt ≤ size) (low : 0 ≤ i.toInt)
    (high : i.toInt < count.toInt) :
    ∃ t' m', Reaches code ⟨(storeElement ty element value k).code ++ tail, t, m⟩ ⟨tail, t', m'⟩ ∧
      element? ty m' b i = some (stored w) ∧
      (∀ j, j ≠ i → element? ty m' b j = element? ty m b j) ∧
      (∀ c, c ≠ b → m'[c]? = m[c]?) ∧
      ∀ c n count', HoldsArray m c n count' → HoldsArray m' c n count' := by
  obtain ⟨bytes, encoded, length, decoded⟩ := encode_stored (Temps.fits_of_operand hvalue)
  obtain ⟨behind, inside⟩ := elementOffset_inside room low high
  obtain ⟨old, hb, total, _⟩ := holds
  have within : Inside (elementOffset ty i) bytes.length old := by
    rw [length]
    exact ⟨by rw [countBytes] at behind; omega, by omega⟩
  have written := Memory.write_eq (p := ⟨b, elementOffset ty i⟩) hb within
  obtain ⟨t', reaches⟩ := storeElement_reaches hvalue helement below encoded written
  refine ⟨t', _, reaches, ?_, fun j other => ?_, fun c other => Memory.block_write written other,
    fun c n count' array => array.write written fun _ => behind⟩
  · have read := Memory.read_write_self written
    rw [length] at read
    rw [element?, read]
    exact decoded
  · rw [element?, Memory.read_write_apart written fun _ => ?_]
    · rfl
    · rw [length]
      exact elementOffset_apart ty other

end Run

end MiniJava.Codegen
