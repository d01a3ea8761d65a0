import MiniJava.Check.Hierarchy
import MiniJava.Name.Suggestion

/-! Declared types have to exist, and in one method each parameter and local variable has a name of
its own. What is accepted is entered into the class table. -/
namespace MiniJava.Check

def checkTy (t : ClassTable) (line : Nat) : Ty → Found Unit
  | .object name =>
    match t.find? name with
    | some _ => .of ()
    | none => report line (.unknownType name (Name.closest? name t.names))
  | _ => .of ()

def checkTys (t : ClassTable) : List VarDecl → Found Unit
  | [] => .of ()
  | d :: ds => do
    checkTy t d.line d.ty
    checkTys t ds

/-- `taken` are names that may not be used again although they stand for nothing. -/
def keepLocals (t : ClassTable) (method : Name) (taken : List Name) (initialized : Bool)
    (kept : List Local) : List VarDecl → Found (List Local)
  | [] => .of kept
  | d :: ds => do
    checkTy t d.line d.ty
    if taken.contains d.name || kept.any (·.name == d.name) then
      report d.line (.nameAlreadyUsed d.name method)
      keepLocals t method taken initialized kept ds
    else
      keepLocals t method taken initialized (kept ++ [⟨d.name, d.ty, d.line, initialized⟩]) ds

/-- Parameters come with a value, other locals do not. -/
def methodLocals (t : ClassTable) (m : MethodDecl .registered) : Found (Nat × List Local) := do
  checkTy t m.line m.returnTy
  let params ← keepLocals t m.name [] true [] m.params
  let locals ← keepLocals t m.name [] false params m.vars
  return (params.length, locals)

def declareMethods (t : ClassTable) : List (MethodDecl .registered) → Found ClassTable
  | [] => .of t
  | m :: ms =>
    match m.note with
    | none => declareMethods t ms
    | some ref => do
      let (paramCount, locals) ← methodLocals t m
      declareMethods (t.modifyMethod ref fun method => { method with paramCount, locals }) ms

def initFields (strict : Bool) (c : Class) : Class :=
  { c with fields := c.fields.map fun f => { f with initialized := !strict } }

def declareClass (strict : Bool) (t : ClassTable) (d : ClassDecl .registered) : Found ClassTable :=
  match d.note with
  | none => .of t
  | some id => do
    checkTys t d.fields
    declareMethods (t.modify id (initFields strict)) d.methods

def declareClasses (strict : Bool) (t : ClassTable) (r : Report) :
    List (ClassDecl .registered) → ClassTable × Report
  | [] => (t, r)
  | d :: ds =>
    if r.full then (t, r)
    else
      let found := declareClass strict t d
      declareClasses strict found.value (r.addAll found.findings) ds

def declareMain (t : ClassTable) (m : MainClass .registered) : Found ClassTable := do
  let locals ← keepLocals t "main" [m.param] false [] m.vars
  return t.modify 0 fun c => { c with entry := c.entry.map fun e => { e with locals } }

def declarations (strict : Bool) (p : Program .registered) (t : ClassTable) (r : Report) :
    ClassTable × Report :=
  let found := declareMain t p.main
  declareClasses strict found.value (r.addAll found.findings) p.classes

end MiniJava.Check
