import MiniJava.Proofs.IR.Dominance

/-!
# Pointers into the object

A method works on the object that `this` points to. Which bytes of that object its code touches can
be read off the text: a pointer is `this` itself or is made from one by casts, by steps or by coming
together with others, and no temporary is set in two ways. A step by a constant number of bytes
leads to one place; of any other step nothing is assumed, so it may lead anywhere.
-/
namespace MiniJava

/-- Bytes that a value takes up in memory. -/
def IRType.storeSize : IRType → Nat
  | .i1 | .i8 => 1
  | .i32 => 4
  | .ptr _ => 8
  | .array size element => size * element.storeSize
  | .void | .fn .. => 0

/-- A field is as large as the value that is kept in it. -/
theorem Ty.storeSize_ir (ty : Ty) : ty.ir.storeSize = ty.size := by
  cases ty <;> rfl

namespace IR

/-- How many bytes a step may go. -/
def Stride : IRType → List Value → Int → Prop
  | .i8, [.int n], m => m = n
  | _, _, _ => True

/-- The operand may point so many bytes behind `this`. -/
inductive Points (code : List Line) : Value → Int → Prop
  | this : Points code .this 0
  | cast {n : Nat} {op : Cast} {source target : IRType} {v : Value} {o : Int} :
      .instr (.set n (.cast op source v target)) ∈ code → Points code v o →
      Points code (.temp n) o
  | step {n : Nat} {ty : IRType} {v : Value} {path : List Value} {o m : Int} :
      .instr (.set n (.address ty v path)) ∈ code → Points code v o → Stride ty path m →
      Points code (.temp n) (o + m)
  | phi {n : Nat} {ty : IRType} {incoming : List (Value × Label)} {v : Value} {l : Label}
      {o : Int} :
      .instr (.set n (.phi ty incoming)) ∈ code → (v, l) ∈ incoming → Points code v o →
      Points code (.temp n) o

/-- What an instruction reads or writes in memory, and through which pointer. -/
def Instr.access? : Instr → Option (IRType × Value)
  | .set _ (.load ty ptr) | .store ty _ ptr => some (ty, ptr)
  | _ => none

/-- A value of the type is read or written so many bytes behind `this`. -/
def Accesses (code : List Line) (ty : IRType) (o : Int) : Prop :=
  ∃ i ptr, .instr i ∈ code ∧ i.access? = some (ty, ptr) ∧ Points code ptr o

/-- The operand is not made from `this`. -/
def Elsewhere (code : List Line) (v : Value) : Prop := ∀ o, ¬ Points code v o

section Points
variable {code : List Line} {o : Int}

theorem points_this_iff : Points code .this o ↔ o = 0 := by
  constructor
  · intro h
    cases h with
    | this => rfl
  · rintro rfl
    exact .this

/-- Only `this` and temporaries point into the object. -/
theorem elsewhere_of_ne {v : Value} (this : v ≠ .this) (temp : ∀ n, v ≠ .temp n) :
    Elsewhere code v := by
  intro o h
  cases h with
  | this => exact this rfl
  | cast _ _ => exact temp _ rfl
  | step _ _ _ => exact temp _ rfl
  | phi _ _ _ => exact temp _ rfl

/-- A temporary is set in one way. -/
theorem eq_of_set (once : (temporaries code).Nodup) {n : Nat} {rhs rhs' : Rhs}
    (h : .instr (.set n rhs) ∈ code) (h' : .instr (.set n rhs') ∈ code) : rhs = rhs' := by
  induction code with
  | nil => cases h
  | cons line code ih =>
    rw [temporaries_cons] at once
    obtain ⟨_, later, apart⟩ := List.nodup_append.mp once
    have set : ∀ rhs, .instr (.set n rhs) ∈ code → n ∈ temporaries code := fun rhs hrhs =>
      List.mem_flatMap.mpr ⟨_, hrhs, List.mem_singleton_self n⟩
    rcases List.mem_cons.mp h with rfl | inside
    · rcases List.mem_cons.mp h' with same | inside'
      · exact ((Instr.set.inj (Line.instr.inj same)).2).symm
      · exact absurd rfl (apart n (List.mem_singleton_self n) n (set _ inside'))
    · rcases List.mem_cons.mp h' with rfl | inside'
      · exact absurd rfl (apart n (List.mem_singleton_self n) n (set _ inside))
      · exact ih later inside inside'

/-- Where a temporary may point that is set to a value. -/
def Rhs.Leads (code : List Line) : Rhs → Int → Prop
  | .cast _ _ v _, o => Points code v o
  | .address ty v path, o => ∃ a m, Points code v a ∧ Stride ty path m ∧ o = a + m
  | .phi _ incoming, o => ∃ p ∈ incoming, Points code p.1 o
  | .load .., _ | .arith .., _ | .compare .., _ | .call .., _ => False

theorem Points.leads (once : (temporaries code).Nodup) {n : Nat} {rhs : Rhs}
    (set : .instr (.set n rhs) ∈ code) (h : Points code (.temp n) o) : rhs.Leads code o := by
  cases h with
  | cast set' hv =>
    obtain rfl := eq_of_set once set set'
    exact hv
  | step set' hv stride =>
    obtain rfl := eq_of_set once set set'
    exact ⟨_, _, hv, stride, rfl⟩
  | phi set' hp hv =>
    obtain rfl := eq_of_set once set set'
    exact ⟨_, hp, hv⟩

end Points

end IR

end MiniJava
