import MiniJava.Codegen.Expression
import MiniJava.Proofs.Codegen.Emit
import MiniJava.Proofs.IR.Machine
import MiniJava.Proofs.Scalar.Semantics

/-!
# Code of scalar expressions

Running the code of an expression leaves its value in the operand that code generation returns, and
changes nothing else but temporaries that were not in use.
-/
namespace MiniJava

open IR

namespace Scalar

def word : Scalar → Word
  | .int n => .i32 n.toBitVec
  | .boolean b => .i1 (.ofBool b)

theorem word_fits (a : Scalar) : a.word.fits a.ty.ir = true := by
  cases a <;> rfl

theorem exists_int {a : Scalar} (h : a.ty = .int) : ∃ n, a = .int n := by
  cases a with
  | int n => exact ⟨n, rfl⟩
  | boolean b => cases h

theorem exists_boolean {a : Scalar} (h : a.ty = .boolean) : ∃ b, a = .boolean b := by
  cases a with
  | int n => cases h
  | boolean b => exact ⟨b, rfl⟩

end Scalar

theorem toBitVec_ofInt_toInt (n : Int32) : BitVec.ofInt 32 n.toInt = n.toBitVec :=
  BitVec.ofInt_toInt

theorem slt_toBitVec (m n : Int32) : m.toBitVec.slt n.toBitVec = decide (m < n) := by
  rw [Bool.eq_iff_iff, decide_eq_true_iff]
  exact Int32.lt_iff_toBitVec_slt.symm

namespace Codegen

/-- What an operation on numbers computes is the value of the operation. -/
theorem arithOf_value {op : BinOp} (arith : op ≠ .and) {s : State} {v w : Value} {m n : Int32}
    (hv : s.operand .i32 v = some (.i32 m.toBitVec))
    (hw : s.operand .i32 w = some (.i32 n.toBitVec)) :
    ∃ a, op.eval (some (.int m)) (some (.int n)) = some a ∧ a.ty = op.resultTy ∧
      s.value (arithOf op v w) = some a.word := by
  cases op with
  | and => exact absurd rfl arith
  | less =>
    refine ⟨_, rfl, rfl, ?_⟩
    simp only [arithOf, State.value, hv, hw, Option.bind_eq_bind, Option.bind_some, Cond.words,
      Cond.bits, slt_toBitVec, Scalar.word]
  | add | sub | mul =>
    refine ⟨_, rfl, rfl, ?_⟩
    simp only [arithOf, State.value, hv, hw, Option.bind_eq_bind, Option.bind_some, Arith.words,
      Arith.bits, Scalar.word, Int32.toBitVec_add, Int32.toBitVec_sub, Int32.toBitVec_mul]

theorem not_value {s : State} {v : Value} {b : Bool}
    (hv : s.operand .i1 v = some (.i1 (.ofBool b))) :
    s.value (.arith .xor .i1 (.int 1) v) = some (.i1 (.ofBool !b)) := by
  have one : s.operand .i1 (.int 1) = some (.i1 1#1) := rfl
  simp only [State.value, one, hv, Option.bind_eq_bind, Option.bind_some, Arith.words]
  cases b <;> rfl

def slotName (c : Env) (x : Name) : String := c.scope ++ "_" ++ x

/-- The slots of the scalar locals hold the values that a store has for them. -/
def Holds (c : Env) (σ : Store) (slots : String → Option Word) : Prop :=
  ∀ l ∈ c.locals, l.ty.isScalar = true →
    (σ l.name).ty = l.ty ∧ slots (slotName c l.name) = some (σ l.name).word

/-- Code that was emitted from a cursor computes an expression of a type, and its value is in an
operand afterwards. -/
structure Evaluates (m : Machine) (c : Env) (k : Cursor) (e : Emitted Value) (ty : Ty)
    (f : Store → Option Scalar) (v : Value) : Prop where
  result : e.result = .ok v
  below : v.Below e.cursor.temps
  mono : k.temps ≤ e.cursor.temps
  block : EndsIn k.block e.code e.cursor.block
  run : ∀ σ rest s, Holds c σ s.slots → Stands m k.block (e.code ++ rest) s →
    ∃ a s', f σ = some a ∧ a.ty = ty ∧ m.Reaches s s' ∧ Stands m e.cursor.block rest s' ∧
      Keeps k.temps s s' ∧ s'.operand ty.ir v = some a.word

def Computes (m : Machine) (c : Env) (x : Gen Value) (ty : Ty) (f : Store → Option Scalar) : Prop :=
  ∀ k, ∃ v, Evaluates m c k (x k) ty f v

section Computes
variable {m : Machine} {c : Env}

theorem Computes.literal {v : Value} {a : Scalar} (below : ∀ n, v.Below n)
    (hv : ∀ s : State, s.operand a.ty.ir v = some a.word) :
    Computes m c (Gen.of v) a.ty fun _ => some a := by
  intro k
  refine ⟨v, rfl, below _, Nat.le_refl _, Or.inl rfl, ?_⟩
  intro σ rest s _ stands
  exact ⟨a, s, rfl, rfl, .refl m s, stands, .refl _ s, hv s⟩

/-- A local is loaded from its slot. -/
theorem Computes.load {i : Nat} {l : Local} (hl : c.locals[i]? = some l)
    (scalar : l.ty.isScalar = true) :
    Computes m c (loadVar c (.loc i)) l.ty fun σ => some (σ l.name) := by
  intro k
  have emitted : loadVar c (.loc i) k = emitValue (.load l.ty.ir (c.slot l)) k := by
    simp only [loadVar, varTy, varPointer, hl]
    rfl
  refine ⟨.temp k.temps, ?_⟩
  rw [emitted]
  refine ⟨rfl, Nat.lt_succ_self _, Nat.le_succ _, Or.inl rfl, ?_⟩
  intro σ rest s holds stands
  obtain ⟨hty, slot⟩ := holds l (List.mem_of_getElem? hl) scalar
  have fits : (σ l.name).word.fits l.ty.ir = true := hty ▸ Scalar.word_fits _
  have loaded : s.value (.load l.ty.ir (c.slot l)) = some (σ l.name).word := by
    change (s.slots (slotName c l.name)).filter (·.fits l.ty.ir) = _
    rw [slot, Option.filter_some, fits, if_pos rfl]
  obtain ⟨s', reaches, stands', keeps, operand⟩ := stands.emitValue loaded
  exact ⟨_, s', rfl, hty, reaches, stands', keeps, operand _ fits⟩

theorem Computes.not {x : Gen Value} {f : Store → Option Scalar} (hx : Computes m c x .boolean f) :
    Computes m c (do
      let e ← x
      emitValue (.arith .xor .i1 (.int 1) e)) .boolean fun σ => (f σ).bind Scalar.not := by
  intro k
  obtain ⟨v, hv⟩ := hx k
  refine ⟨.temp (x k).cursor.temps, ?_⟩
  rw [bind_eq hv.result]
  refine ⟨rfl, Nat.lt_succ_self _, Nat.le_succ_of_le hv.mono, hv.block.append (Or.inl rfl), ?_⟩
  intro σ rest s holds stands
  rw [List.append_assoc] at stands
  obtain ⟨a, s₁, value, hty, reaches, stands₁, keeps, operand⟩ := hv.run σ _ s holds stands
  obtain ⟨b, rfl⟩ := Scalar.exists_boolean hty
  obtain ⟨s₂, reaches₂, stands₂, keeps₂, operand₂⟩ := stands₁.emitValue (not_value operand)
  refine ⟨.boolean !b, s₂, ?_, rfl, reaches.trans reaches₂, stands₂, keeps.trans keeps₂ hv.mono,
    operand₂ _ rfl⟩
  rw [value]
  rfl

theorem Computes.arith {op : BinOp} (arith : op ≠ .and) {x y : Gen Value}
    {f g : Store → Option Scalar} (hx : Computes m c x .int f) (hy : Computes m c y .int g) :
    Computes m c (do
      let a ← x
      let b ← y
      emitValue (arithOf op a b)) op.resultTy fun σ => op.eval (f σ) (g σ) := by
  intro k
  obtain ⟨v, hv⟩ := hx k
  obtain ⟨w, hw⟩ := hy (x k).cursor
  refine ⟨.temp (y (x k).cursor).cursor.temps, ?_⟩
  rw [bind_eq hv.result, bind_eq hw.result]
  refine ⟨rfl, Nat.lt_succ_self _, Nat.le_trans hv.mono (Nat.le_succ_of_le hw.mono),
    hv.block.append (hw.block.append (Or.inl rfl)), ?_⟩
  intro σ rest s holds stands
  simp only [List.append_assoc] at stands
  obtain ⟨a, s₁, value, hty, reaches, stands₁, keeps, operand⟩ := hv.run σ _ s holds stands
  obtain ⟨n, rfl⟩ := Scalar.exists_int hty
  rw [← keeps.slots] at holds
  obtain ⟨b, s₂, value₂, hty₂, reaches₂, stands₂, keeps₂, operand₂⟩ :=
    hw.run σ _ s₁ holds stands₁
  obtain ⟨n', rfl⟩ := Scalar.exists_int hty₂
  rw [← keeps₂.operand hv.below] at operand
  obtain ⟨a, hop, hty, result⟩ := arithOf_value arith operand operand₂
  obtain ⟨s₃, reaches₃, stands₃, keeps₃, operand₃⟩ := stands₂.emitValue result
  refine ⟨a, s₃, ?_, hty, reaches.trans (reaches₂.trans reaches₃), stands₃,
    keeps.trans (keeps₂.trans keeps₃ hw.mono) hv.mono, operand₃ _ (hty ▸ a.word_fits)⟩
  rw [value, value₂, hop]

/-- The phi takes the value of the operand that was computed last, since the block it was computed
in cannot be the one that decided. -/
theorem Computes.and (once : m.Unambiguous) {x y : Gen Value} {f g : Store → Option Scalar}
    (hx : Computes m c x .boolean f) (hy : Computes m c y .boolean g) :
    Computes m c (genAnd x y) .boolean fun σ => BinOp.and.eval (f σ) (g σ) := by
  intro k
  obtain ⟨v, hv⟩ := hx k
  generalize hi : (x k).cursor.labels.ands = i
  generalize hk : Cursor.mk { (x k).cursor.labels with ands := i + 1 } (x k).cursor.temps
    (.block .andRhs i) = k₁
  obtain ⟨w, hw⟩ := hy k₁
  have start : k₁.block = .block .andRhs i := by rw [← hk]
  have temps : k₁.temps = (x k).cursor.temps := by rw [← hk]
  refine ⟨.temp (y k₁).cursor.temps, ?_⟩
  rw [genAnd_eq hv.result hi hk.symm hw.result]
  have mono : k.temps ≤ (y k₁).cursor.temps :=
    Nat.le_trans hv.mono (temps ▸ hw.mono)
  refine ⟨rfl, Nat.lt_succ_self _, Nat.le_succ_of_le mono, ?_, ?_⟩
  · refine Or.inr ?_
    simp only [starts_append, starts, if_true]
    omega
  intro σ rest s holds stands
  simp only [List.append_assoc, List.cons_append, List.nil_append] at stands
  obtain ⟨a, s₁, value, hty, reaches, stands₁, keeps, operand⟩ := hv.run σ _ s holds stands
  obtain ⟨p, rfl⟩ := Scalar.exists_boolean hty
  have rhsAt := (List.suffix_cons _ _).trans stands₁.within
  have endAt := (List.suffix_cons _ _).trans ((List.suffix_append _ _).trans
    ((List.suffix_cons _ _).trans rhsAt))
  cases p with
  | false =>
    obtain ⟨s₂, taken, stands₂, from₂, keeps₂⟩ := stands₁.branch once operand endAt
    obtain ⟨s₃, reaches₃, stands₃, keeps₃, operand₃⟩ :=
      stands₂.emitValue (w := .i1 (.ofBool false)) (State.phi_same from₂)
    refine ⟨.boolean false, s₃, ?_, rfl, reaches.trans (.trans (.of_step taken) reaches₃), stands₃,
      keeps.trans ((keeps₂ _).trans keeps₃ (Nat.le_refl _)) mono, operand₃ _ rfl⟩
    rw [value]
    rfl
  | true =>
    obtain ⟨s₂, taken, stands₂, _, keeps₂⟩ := stands₁.branch once operand rhsAt
    rw [← keeps.slots, ← (keeps₂ 0).slots] at holds
    simp only [if_true, ← start] at stands₂
    obtain ⟨a, s₃, value₃, hty, reaches₃, stands₃, keeps₃, operand₃⟩ :=
      hw.run σ _ s₂ holds stands₂
    obtain ⟨q, rfl⟩ := Scalar.exists_boolean hty
    obtain ⟨s₄, taken₄, stands₄, from₄, keeps₄⟩ := stands₃.jump once endAt
    -- the block that decided is not started again
    have ends : EndsIn (.block .andRhs i) (y k₁).code s₄.previous := from₄ ▸ start ▸ hw.block
    have other : s₄.previous ≠ (x k).cursor.block := ends.ne stands₁.passed
    have chosen : s₄.value (.phi .i1 [(.bool false, (x k).cursor.block),
        (w, (y k₁).cursor.block)]) = some (.i1 (.ofBool q)) := by
      rw [State.phi_other other, State.phi_same from₄, (keeps₄ _).operand hw.below]
      exact operand₃
    obtain ⟨s₅, reaches₅, stands₅, keeps₅, operand₅⟩ := stands₄.emitValue chosen
    refine ⟨.boolean q, s₅, ?_, rfl, ?_, stands₅, ?_, operand₅ _ rfl⟩
    · rw [value, value₃]
      rfl
    · exact reaches.trans (.trans (.of_step taken)
        (reaches₃.trans (.trans (.of_step taken₄) reaches₅)))
    · have keeps₄₅ := (keeps₄ (y k₁).cursor.temps).trans keeps₅ (Nat.le_refl _)
      exact keeps.trans ((keeps₂ _).trans (keeps₃.trans keeps₄₅ hw.mono) (Nat.le_refl _))
        (temps ▸ hv.mono)

end Computes

end Codegen

end MiniJava
