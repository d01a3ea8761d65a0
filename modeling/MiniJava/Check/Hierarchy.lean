import MiniJava.Check.Report
import MiniJava.Class.Reference

/-! The class table of a program. Classes are entered in the order of declaration, and a superclass
has to be entered before; what is declared twice or clashes is reported and left out. Then every
class is told the methods it takes over from its ancestors. -/
namespace MiniJava.Check

def keepFields (cls : Name) (kept : List Field) : List VarDecl → Found (List Field)
  | [] => .of kept
  | d :: ds =>
    if kept.any (·.name == d.name) then do
      report d.line (.duplicateField d.name cls)
      keepFields cls kept ds
    else keepFields cls (kept ++ [{ name := d.name, ty := d.ty, line := d.line }]) ds

/-- The class itself, an unknown class and the main class are no parents. -/
def parentOf (t : ClassTable) (d : ClassDecl .bare) : Found (Option ClassId) :=
  match d.superclass with
  | none => .of none
  | some s =>
    if s = d.name then do
      report d.line (.cyclicInheritance d.name)
      return none
    else match t.find? s with
      | none => do
        report d.line (.unknownSuperclass d.name s)
        return none
      | some p =>
        if t.isMain p then do
          report d.line (.cannotExtendMainClass d.name s)
          return none
        else .of (some p)

/-- Why a method may not join those kept so far. -/
def clash? (cls : Name) (fields : List Field) (kept : List Method) (name : Name) :
    Option SemanticError :=
  if kept.any (·.name == name) then some (.duplicateMethod name cls)
  else if name = cls then some (.methodNamedLikeClass name)
  else if fields.any (·.name == name) then some (.methodNamedLikeField name cls)
  else none

def registerMethod (m : MethodDecl .bare) (note : Option MethodRef) : MethodDecl .registered :=
  ⟨m.line, note, m.returnTy, m.name, m.params, m.vars, m.body, m.result⟩

def registerClass (d : ClassDecl .bare) (note : Option ClassId)
    (methods : List (MethodDecl .registered)) : ClassDecl .registered :=
  ⟨d.line, note, d.name, d.superclass, d.fields, methods⟩

/-- A class that is not entered, nor are its methods. -/
def unregistered (d : ClassDecl .bare) : ClassDecl .registered :=
  registerClass d none (d.methods.map (registerMethod · none))

def keepMethods (cls : Name) (id : ClassId) (fields : List Field) (kept : List Method) :
    List (MethodDecl .bare) → Found (List Method × List (MethodDecl .registered))
  | [] => .of (kept, [])
  | m :: ms =>
    match clash? cls fields kept m.name with
    | some e => do
      report m.line e
      let (methods, decls) ← keepMethods cls id fields kept ms
      return (methods, registerMethod m none :: decls)
    | none => do
      let method : Method :=
        { name := m.name, line := m.line, owner := id, returnTy := m.returnTy }
      let (methods, decls) ← keepMethods cls id fields (kept ++ [method]) ms
      return (methods, registerMethod m (some ⟨id, kept.length⟩) :: decls)

def enter (t : ClassTable) (d : ClassDecl .bare) : Found (ClassTable × ClassDecl .registered) :=
  match t.find? d.name with
  | some _ => do
    report d.line (.duplicateClass d.name)
    return (t, unregistered d)
  | none => do
    let fields ← keepFields d.name [] d.fields
    let parent ← parentOf t d
    let (methods, decls) ← keepMethods d.name t.size fields [] d.methods
    let (id, t) := t.add { name := d.name, line := d.line, parent, fields, methods }
    return (t, registerClass d id decls)

/-- Stops entering classes once the report is full. -/
def enterAll (t : ClassTable) (r : Report) :
    List (ClassDecl .bare) → ClassTable × Report × List (ClassDecl .registered)
  | [] => (t, r, [])
  | d :: ds =>
    if r.full then (t, r, (d :: ds).map unregistered)
    else
      let found := enter t d
      let (t, r, decls) := enterAll found.value.1 (r.addAll found.findings) ds
      (t, r, found.value.2 :: decls)

/-- A later entry takes the place of an earlier one with its name. -/
def place (entry : Inherited) : List Inherited → List Inherited
  | [] => [entry]
  | e :: es => if e.name = entry.name then entry :: es else e :: place entry es

def inheritFrom (t : ClassTable) (c ancestor : ClassId) (kept : List Inherited) : List Inherited :=
  (t.methods ancestor).zipIdx.foldl
    (fun kept (m, i) =>
      if (t.ownMethod? c m.name).isSome then kept else place ⟨m.name, ⟨ancestor, i⟩⟩ kept)
    kept

/-- The methods of the ancestors that a class does not declare, topmost ancestor first. -/
def inheritedOf (t : ClassTable) (c : ClassId) : List Inherited :=
  (t.ancestors c).reverse.foldl (fun kept a => inheritFrom t c a kept) []

def withInherited (t : ClassTable) : ClassTable :=
  { t with classes := t.classes.mapIdx fun c cls => { cls with inherited := inheritedOf t c } }

def mainOnly (m : MainClass .bare) : ClassTable :=
  (ClassTable.empty.add { name := m.name, line := m.line, entry := some { param := m.param } }).2

structure Hierarchy where
  table : ClassTable
  program : Program .registered
  report : Report

def hierarchy (limit : Option Nat) (p : Program .bare) : Hierarchy :=
  let (t, r, decls) := enterAll (mainOnly p.main) { limit } p.classes
  let main : MainClass .registered := ⟨p.main.line, p.main.name, p.main.param, p.main.vars, p.main.body⟩
  ⟨withInherited t, ⟨main, decls⟩, r⟩

end MiniJava.Check
