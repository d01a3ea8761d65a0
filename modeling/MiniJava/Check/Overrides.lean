import MiniJava.Check.Report
import MiniJava.Class.Table

/-! A method that overrides another repeats its return type and the types of its parameters. It is
compared with the nearest declaration above its class. -/
namespace MiniJava.Check

/-- The first place, from 1, where two lists differ. -/
def mismatch? (place : Nat) : List Ty → List Ty → Option (Nat × Ty × Ty)
  | a :: as, b :: bs => if a = b then mismatch? (place + 1) as bs else some (place, a, b)
  | _, _ => none

def compareReturn (m above : Method) (ancestor : Name) : Found Unit :=
  if m.returnTy = above.returnTy then .of ()
  else report m.line (.overrideReturnType m.name ancestor above.returnTy m.returnTy)

def compareParams (m above : Method) (ancestor : Name) : Found Unit :=
  if m.paramCount = above.paramCount then
    match mismatch? 1 m.paramTys above.paramTys with
    | none => .of ()
    | some (place, own, expected) =>
      report m.line (.overrideParamType m.name ancestor place expected own)
  else report m.line (.overrideParamCount m.name ancestor above.paramCount m.paramCount)

def checkOverride (t : ClassTable) (parent : ClassId) (m : Method) : Found Unit :=
  match t.findMethod? parent m.name with
  | none => .of ()
  | some ref =>
    match t.method? ref with
    | none => .of ()
    | some above => do
      let ancestor := t.nameOf ref.cls
      compareReturn m above ancestor
      compareParams m above ancestor

def checkMethods (t : ClassTable) (parent : ClassId) : List Method → Found Unit
  | [] => .of ()
  | m :: ms => do
    checkOverride t parent m
    checkMethods t parent ms

def checkClasses (t : ClassTable) : List Class → Found Unit
  | [] => .of ()
  | c :: cs => do
    match c.parent with
    | none => .of ()
    | some parent => checkMethods t parent c.methods
    checkClasses t cs

def overrides (t : ClassTable) (r : Report) : Report :=
  r.addAll (checkClasses t t.classes.toList).findings

end MiniJava.Check
