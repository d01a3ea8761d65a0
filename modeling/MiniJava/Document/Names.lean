import MiniJava.Name.Table
import MiniJava.Identity

/-! The names that a program contains. -/
namespace MiniJava

def Ty.names : Ty → List Name
  | .object name => [name]
  | _ => []

def VarDecl.names (v : VarDecl) : List Name := v.ty.names ++ [v.name]

section
variable {ν τ : Type} {N : Notes}

/-- The name in the node itself. -/
def Expr.ownNames (e : Expr ν) : List Name :=
  match e.form with
  | .send _ name _ | .name name | .newObject name => [name]
  | _ => []

def Item.names : Item ν τ → List Name
  | .expr e => e.ownNames
  | .target x _ => [x.value]

def MethodDecl.names (m : MethodDecl N) : List Name :=
  m.returnTy.names ++ m.name :: m.params.flatMap (·.names) ++ m.vars.flatMap (·.names) ++
    m.items.flatMap (·.names)

def ClassDecl.names (c : ClassDecl N) : List Name :=
  c.name :: c.superclass.toList ++ c.fields.flatMap (·.names) ++ c.methods.flatMap (·.names)

def MainClass.names (c : MainClass N) : List Name :=
  c.name :: c.param :: c.vars.flatMap (·.names) ++ (bodyItems c.body).flatMap (·.names)

def Program.names (p : Program N) : List Name :=
  p.main.names ++ p.classes.flatMap (·.names)

/-- How many different names there are. -/
def Program.nameCount (p : Program N) : Nat := (Name.Table.ofList p.names).size

end

end MiniJava
