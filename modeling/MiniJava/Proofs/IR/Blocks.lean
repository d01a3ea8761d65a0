import Mathlib.Data.List.Nodup
import MiniJava.IR.Module

/-!
# Blocks

A block is what follows its label. If no block is started twice, the block of a label is what
follows wherever the label stands.
-/
namespace MiniJava.IR

/-- Nothing after the instruction in its block is executed. -/
def Instr.ends : Instr → Bool
  | .jump _ | .branch .. | .ret .. | .unreachable => true
  | .alloca .. | .set .. | .store .. | .call .. => false

/-- The operands of a phi, each with the block that it is for. -/
def Rhs.phi? : Rhs → Option (List (Value × Label))
  | .phi _ incoming => some incoming
  | _ => none

def Instr.phi? : Instr → Option (List (Value × Label))
  | .set _ rhs => rhs.phi?
  | _ => none

/-- How often a block is started. -/
def starts (l : Label) : List Line → Nat
  | [] => 0
  | .label m :: code => starts l code + if m = l then 1 else 0
  | .instr _ :: code => starts l code

/-- The lines after the first place where a block is started. -/
def blockAt (l : Label) : List Line → Option (List Line)
  | [] => none
  | .label m :: code => if m = l then some code else blockAt l code
  | .instr _ :: code => blockAt l code

theorem starts_append (l : Label) (a b : List Line) :
    starts l (a ++ b) = starts l a + starts l b := by
  induction a with
  | nil => rw [List.nil_append, starts, Nat.zero_add]
  | cons line a ih =>
    cases line with
    | label m =>
      simp only [List.cons_append, starts, ih]
      omega
    | instr i => simp only [List.cons_append, starts, ih]

/-- The block that a piece of code ends in, if it is entered in a block: the same one, or one that
it starts. -/
def EndsIn (b : Label) (code : List Line) (b' : Label) : Prop := b' = b ∨ 0 < starts b' code

theorem EndsIn.append {b b' b'' : Label} {code code' : List Line} (h : EndsIn b code b')
    (h' : EndsIn b' code' b'') : EndsIn b (code ++ code') b'' := by
  rw [EndsIn, starts_append]
  rcases h' with rfl | started
  · rcases h with rfl | started
    · exact Or.inl rfl
    · exact Or.inr (by omega)
  · exact Or.inr (by omega)

/-- What starts below a position is not the block that the position is in. -/
theorem EndsIn.ne {b l b' : Label} {code rest : List Line} (h : EndsIn l code b')
    (passed : starts b (.label l :: (code ++ rest)) = 0) : b' ≠ b := by
  rintro rfl
  rw [starts, starts_append] at passed
  rcases h with rfl | started
  · rw [if_pos rfl] at passed
    omega
  · omega

theorem blockAt_append {l : Label} {before : List Line} (h : starts l before = 0)
    (code : List Line) : blockAt l (before ++ code) = blockAt l code := by
  induction before with
  | nil => rfl
  | cons line before ih =>
    cases line with
    | label m =>
      rw [starts, Nat.add_eq_zero_iff] at h
      have other : m ≠ l := by
        intro same
        rw [if_pos same] at h
        cases h.2
      rw [List.cons_append, blockAt, if_neg other, ih h.1]
    | instr i =>
      rw [List.cons_append, blockAt]
      exact ih h

theorem blockAt_of_isSuffix {l : Label} {code rest : List Line} (once : starts l code ≤ 1)
    (h : .label l :: rest <:+ code) : blockAt l code = some rest := by
  obtain ⟨before, rfl⟩ := h
  rw [starts_append, starts, if_pos rfl] at once
  rw [blockAt_append (by omega), blockAt, if_pos rfl]

def Role.all : List Role :=
  [.ifThen, .ifElse, .ifEnd, .loopCond, .loopBody, .loopEnd, .boundsOk, .boundsErr, .sizeOk, .sizeErr,
    .andRhs, .andEnd]

theorem Role.text_injective {r q : Role} (h : r.text = q.text) : r = q := by
  have listed : ∀ r : Role, r ∈ Role.all := by
    intro r
    cases r <;> decide
  exact List.inj_on_of_nodup_map (f := Role.text) (by decide) (listed r) (listed q) h

/-- A mark that is in neither end splits a list in one way only. -/
theorem append_mark_inj {α : Type} {mark : α} {a a' z z' : List α} (hz : mark ∉ z) (hz' : mark ∉ z')
    (h : a ++ mark :: z = a' ++ mark :: z') : a = a' ∧ z = z' := by
  rcases List.append_eq_append_iff.mp h with ⟨w, ha, hw⟩ | ⟨w, ha, hw⟩
  · cases w with
    | nil => exact ⟨by simpa using ha.symm, (List.cons.inj hw).2⟩
    | cons b w =>
      obtain ⟨-, rfl⟩ := List.cons.inj hw
      exact absurd (by simp) hz
  · cases w with
    | nil => exact ⟨by simpa using ha, (List.cons.inj hw).2.symm⟩
    | cons b w =>
      obtain ⟨-, rfl⟩ := List.cons.inj hw
      exact absurd (by simp) hz'

theorem Label.toList_text (r : Role) (i : Nat) :
    (Label.block r i).text.toList = r.text.toList ++ '_' :: Nat.toDigits 10 i := by
  have split : (Label.block r i).text = r.text ++ ("_" ++ i.repr) := rfl
  rw [split, String.toList_append, String.toList_append, Nat.toList_repr]
  rfl

/-- Blocks with different labels have different names in the text. -/
theorem Label.text_injective {l m : Label} (h : l.text = m.text) : l = m := by
  have entry : ∀ r i, Label.entry.text ≠ (Label.block r i).text := by
    intro r i same
    have mark : '_' ∈ Label.entry.text.toList := by
      rw [same, toList_text]
      simp
    exact absurd mark (by decide)
  cases l with
  | entry =>
    cases m with
    | entry => rfl
    | block r i => exact absurd h (entry r i)
  | block r i =>
    cases m with
    | entry => exact absurd h.symm (entry r i)
    | block q j =>
      have same := congrArg String.toList h
      rw [toList_text, toList_text] at same
      obtain ⟨role, index⟩ := append_mark_inj Nat.underscore_not_in_toDigits
        Nat.underscore_not_in_toDigits same
      rw [Role.text_injective (String.toList_inj.mp role)]
      have read := congrArg (Nat.ofDigitChars 10 · 0) index
      simp only [Nat.ofDigitChars_ten_toDigits] at read
      rw [read]

end MiniJava.IR
