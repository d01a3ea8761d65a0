import MiniJava.Class.Table

/-! What names in bodies stand for, and the notes that analysis leaves on a program. -/
namespace MiniJava

/-- A local is its place in the enclosing method. -/
inductive VarRef where
  | loc (index : Nat)
  | field (ref : FieldRef)
  deriving DecidableEq, Repr

inductive Ref where
  | var (v : VarRef)
  | method (m : MethodRef)
  | cls (c : ClassId)
  deriving DecidableEq, Repr

structure ExprInfo where
  ty : Ty
  ref : Option Ref := none
  deriving DecidableEq, Repr

/-- Left by the class hierarchy: the number of each class and the place of each method, where the
declaration was accepted. -/
abbrev Notes.registered : Notes := ⟨Unit, Unit, Option ClassId, Option MethodRef⟩

/-- Left by the bodies: types, and what names stand for. -/
abbrev Notes.checked : Notes := ⟨Option ExprInfo, Option VarRef, Option ClassId, Option MethodRef⟩

end MiniJava
