import MiniJava.Check.Expression

/-! Statements and bodies, in the order of the program. A variable counts as initialized once an
assignment to it has been passed, in whatever branch or method; the initialized marks are all that
changes in the class table. No statement of a list is looked at once the report is full. -/
namespace MiniJava.Check

structure State where
  table : ClassTable
  report : Report

abbrev Target := Option VarRef

abbrev CheckM := StateM State

def take {α : Type} (find : ClassTable → Found α) : CheckM α := fun st =>
  let found := find st.table
  (found.value, { st with report := st.report.addAll found.findings })

def isFull : CheckM Bool := fun st => (st.report.full, st)

def setInit (x : Local) : Local := { x with initialized := true }

def markLocal (t : ClassTable) (p : Place) (i : Nat) : ClassTable :=
  match p.method with
  | none => t.modify p.cls fun c =>
    { c with entry := c.entry.map fun e => { e with locals := e.locals.modify i setInit } }
  | some r => t.modifyMethod r fun m => { m with locals := m.locals.modify i setInit }

def markInitialized (t : ClassTable) (p : Place) : VarRef → ClassTable
  | .loc i => markLocal t p i
  | .field r => t.modifyField r fun f => { f with initialized := true }

def mark (p : Place) (v : VarRef) : CheckM Unit := fun st =>
  ((), { st with table := markInitialized st.table p v })

def typeIn (p : Place) (e : Expr Unit) : CheckM (Expr Note) := take fun t => typeExpr ⟨t, p⟩ e

def checkCond (p : Place) (line : Nat) (cond : Expr Unit) : CheckM (Expr Note) := take fun t => do
  let cond ← typeExpr ⟨t, p⟩ cond
  let _ ← expect line cond .boolean .conditionMustBeBoolean
  return cond

def checkStored (t : ClassTable) (line : Nat) (ty : Ty) (value : Expr Note) : Found Unit :=
  match value.note with
  | none => .of ()
  | some info =>
    if t.assignable ty info.ty then .of () else report line (.incompatibleTypes ty info.ty)

/-- The target is resolved and marked even if the value has no type. -/
def checkAssign (p : Place) (line : Nat) (x : Name) (value : Expr Unit) :
    CheckM (Target × Expr Note) := do
  let value ← typeIn p value
  match ← take fun t => (Scope.mk t p).resolve line x with
  | none => return (none, value)
  | some (v, ty) => do
    take fun t => checkStored t line ty value
    mark p v
    return (some v, value)

/-- Stops at the first fault, where the rest stays without notes. -/
def checkArrayAssign (s : Scope) (line : Nat) (x : Name) (index value : Expr Unit) :
    Found (Target × Expr Note × Expr Note) := do
  match ← s.resolve line x with
  | none => return (none, blank index, blank value)
  | some (v, ty) => do
    s.checkInitialized line x v
    match ty.element? with
    | none => do
      report line (.notAnArray ty)
      return (some v, blank index, blank value)
    | some element => do
      let index ← typeExpr s index
      if ← expect line index .int .indexMustBeInt then do
        let value ← typeExpr s value
        let _ ← expect line value element (.incompatibleTypes element)
        return (some v, index, value)
      else return (some v, index, blank value)

def blankStmt (s : Stmt Unit Unit) : Stmt Note Target := s.map (fun _ => none) (fun _ => none)

mutual

def checkStmt (p : Place) : Stmt Unit Unit → CheckM (Stmt Note Target)
  | .block line body => do
    let body ← checkStmts p body
    return .block line body
  | .assign line x _ value => do
    let (target, value) ← checkAssign p line x value
    return .assign line x target value
  | .arrayAssign line x _ index value => do
    let (target, index, value) ← take fun t => checkArrayAssign ⟨t, p⟩ line x index value
    return .arrayAssign line x target index value
  | .ifElse line cond yes no => do
    let cond ← checkCond p line cond
    let yes ← checkStmt p yes
    let no ← checkStmt p no
    return .ifElse line cond yes no
  | .while line cond body => do
    let cond ← checkCond p line cond
    let body ← checkStmt p body
    return .while line cond body
  | .print line value => do
    let value ← typeIn p value
    let _ ← take fun _ => expect line value .int .printRequiresInt
    return .print line value

def checkStmts (p : Place) : List (Stmt Unit Unit) → CheckM (List (Stmt Note Target))
  | [] => return []
  | s :: ss => do
    if ← isFull then return blankStmt s :: ss.map blankStmt
    else do
      let s ← checkStmt p s
      let ss ← checkStmts p ss
      return s :: ss

end

/-- The value of a method has to fit its return type. -/
def checkResult (p : Place) (ref : MethodRef) (result : Expr Unit) : CheckM (Expr Note) :=
  take fun t => do
    let result ← typeExpr ⟨t, p⟩ result
    match result.note, t.method? ref with
    | some info, some m =>
      if t.assignable m.returnTy info.ty then return result
      else do
        report result.line (.returnTypeMismatch m.name m.returnTy info.ty)
        return result
    | _, _ => return result

def blankMethod (m : MethodDecl .registered) : MethodDecl .checked :=
  ⟨m.line, m.note, m.returnTy, m.name, m.params, m.vars, m.body.map blankStmt, blank m.result⟩

def checkMethod (cls : ClassId) (m : MethodDecl .registered) : CheckM (MethodDecl .checked) := do
  if ← isFull then return blankMethod m
  else match m.note with
    | none => return blankMethod m
    | some ref => do
      let p : Place := ⟨cls, some ref⟩
      let body ← checkStmts p m.body
      let result ← if ← isFull then pure (blank m.result) else checkResult p ref m.result
      return ⟨m.line, m.note, m.returnTy, m.name, m.params, m.vars, body, result⟩

def checkMethodBodies (cls : ClassId) :
    List (MethodDecl .registered) → CheckM (List (MethodDecl .checked))
  | [] => return []
  | m :: ms => do
    let m ← checkMethod cls m
    let ms ← checkMethodBodies cls ms
    return m :: ms

def checkClass (c : ClassDecl .registered) : CheckM (ClassDecl .checked) :=
  match c.note with
  | none =>
    return ⟨c.line, c.note, c.name, c.superclass, c.fields, c.methods.map blankMethod⟩
  | some id => do
    let methods ← checkMethodBodies id c.methods
    return ⟨c.line, c.note, c.name, c.superclass, c.fields, methods⟩

def checkClassBodies : List (ClassDecl .registered) → CheckM (List (ClassDecl .checked))
  | [] => return []
  | c :: cs => do
    let c ← checkClass c
    let cs ← checkClassBodies cs
    return c :: cs

def bodies (p : Program .registered) : CheckM (Program .checked) := do
  let body ← checkStmts ⟨0, none⟩ p.main.body
  let classes ← checkClassBodies p.classes
  return ⟨⟨p.main.line, p.main.name, p.main.param, p.main.vars, body⟩, classes⟩

end MiniJava.Check
