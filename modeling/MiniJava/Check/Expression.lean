import MiniJava.Check.Report
import MiniJava.Class.Reference
import MiniJava.Name.Suggestion

/-! Types of expressions. Typing leaves a note on every expression that has a type; where a part has
none, the parts after it may stay without a note. The class table is only read. -/
namespace MiniJava.Check

/-- Where a body stands; `method` is missing in `main`. -/
structure Place where
  cls : ClassId
  method : Option MethodRef

structure Scope where
  table : ClassTable
  place : Place

abbrev Note := Option ExprInfo

namespace Scope

def entry? (s : Scope) : Option EntryPoint := (s.table.get? s.place.cls).bind (·.entry)

def locals (s : Scope) : List Local :=
  match s.place.method with
  | none => (s.entry?.map (·.locals)).getD []
  | some m => ((s.table.method? m).map (·.locals)).getD []

/-- Whether a name is the parameter of `main`, inside `main`. -/
def isMainParam (s : Scope) (name : Name) : Bool :=
  s.place.method.isNone && s.entry?.any (·.param == name)

def visibleNames (s : Scope) : List Name :=
  s.locals.map (·.name) ++ (s.table.visibleFields s.place.cls).map (·.name)

/-- A name is a local, else a field of the class or of its nearest ancestor. -/
def resolve (s : Scope) (line : Nat) (name : Name) : Found (Option (VarRef × Ty)) :=
  match s.locals.findIdx? (·.name == name) with
  | some i => .of (some (.loc i, ((s.locals[i]?).map (·.ty)).getD .int))
  | none =>
    if s.isMainParam name then do
      report line (.mainParamUsed name)
      return none
    else match s.table.findField? s.place.cls name with
      | some r => .of (some (.field r, ((s.table.field? r).map (·.ty)).getD .int))
      | none => do
        report line (.unknownIdentifier name (Name.closest? name s.visibleNames))
        return none

def isInitialized (s : Scope) : VarRef → Bool
  | .loc i => (s.locals[i]?).any (·.initialized)
  | .field r => (s.table.field? r).any (·.initialized)

def checkInitialized (s : Scope) (line : Nat) (name : Name) (v : VarRef) : Found Unit :=
  if s.isInitialized v then .of () else report line (.uninitialized name)

/-- The class an object is made of. -/
def instantiate (s : Scope) (line : Nat) (name : Name) : Found (Option ClassId) :=
  match s.table.find? name with
  | none => do
    report line (.unknownType name (Name.closest? name s.table.names))
    return none
  | some c =>
    if s.table.isMain c then do
      report line (.cannotInstantiateMainClass name)
      return none
    else .of (some c)

/-- The method that a message to a receiver of type `ty` calls. -/
def callee (s : Scope) (line : Nat) (ty : Ty) (name : Name) : Found (Option (MethodRef × Method)) :=
  match ty.className?.bind s.table.find? with
  | none => do
    report line (.cannotDereference ty)
    return none
  | some c =>
    match s.table.findMethod? c name with
    | none => do
      let hint := Name.closest? name ((s.table.visibleMethods c).map (·.name))
      report line (.unknownMethod name ty hint)
      return none
    | some r => .of ((s.table.method? r).map fun m => (r, m))

end Scope

def blank (e : Expr Unit) : Expr Note := e.map fun _ => none

def blankArgs (es : List (Expr Unit)) : List (Expr Note) := mapArgs (fun _ => none) es

/-- Whether an expression has exactly the expected type. -/
def expect (line : Nat) (e : Expr Note) (ty : Ty) (error : Ty → SemanticError) : Found Bool :=
  match e.note with
  | none => .of false
  | some info =>
    if info.ty = ty then .of true
    else do
      report line (error info.ty)
      return false

def typeBinary (line : Nat) (op : BinOp) (lhs rhs : Expr Note) : Found Note :=
  match lhs.note, rhs.note with
  | some l, some r =>
    if l.ty = op.operandTy ∧ r.ty = op.operandTy then .of (some { ty := op.resultTy })
    else do
      report line (.invalidOperands op l.ty r.ty)
      return none
  | _, _ => .of none

/-- The type of the elements of an array. -/
def elementTy (line : Nat) (array : Expr Note) : Found (Option Ty) :=
  match array.note with
  | none => .of none
  | some info =>
    match info.ty.element? with
    | some ty => .of (some ty)
    | none => do
      report line (.notAnArray info.ty)
      return none

def checkArg (s : Scope) (line : Nat) (method : Name) (position : Nat) (ty : Ty) (arg : Expr Note) :
    Found Bool :=
  match arg.note with
  | none => .of false
  | some info =>
    if s.table.assignable ty info.ty then .of true
    else do
      report line (.argTypeMismatch method position ty info.ty)
      return false

def noteIf (ok : Bool) (ty : Ty) (ref : Option Ref) : Note := if ok then some ⟨ty, ref⟩ else none

mutual

def typeExpr (s : Scope) : Expr Unit → Found (Expr Note)
  | .node line _ form => do
    let (form, note) ← typeForm s line form
    return .node line note form

def typeForm (s : Scope) (line : Nat) : ExprForm Unit → Found (ExprForm Note × Note)
  | .binary op lhs rhs => do
    let lhs ← typeExpr s lhs
    let rhs ← typeExpr s rhs
    let note ← typeBinary line op lhs rhs
    return (.binary op lhs rhs, note)
  | .not operand => do
    let operand ← typeExpr s operand
    let ok ← expect line operand .boolean .invalidNotOperand
    return (.not operand, noteIf ok .boolean none)
  | .lookup array index => do
    let array ← typeExpr s array
    match ← elementTy line array with
    | none => return (.lookup array (blank index), none)
    | some ty => do
      let index ← typeExpr s index
      let ok ← expect line index .int .indexMustBeInt
      return (.lookup array index, noteIf ok ty none)
  | .length array => do
    let array ← typeExpr s array
    let ty ← elementTy line array
    return (.length array, noteIf ty.isSome .int none)
  | .send receiver name args => do
    let receiver ← typeExpr s receiver
    match receiver.note with
    | none => return (.send receiver name (blankArgs args), none)
    | some info => do
      match ← s.callee line info.ty name with
      | none => return (.send receiver name (blankArgs args), none)
      | some (ref, method) =>
        if method.paramTys.length = args.length then do
          let (args, ok) ← typeArgs s line name 1 method.paramTys args
          return (.send receiver name args, noteIf ok method.returnTy (some (.method ref)))
        else do
          report line (.argCountMismatch name method.paramTys.length args.length)
          return (.send receiver name (blankArgs args), none)
  | .int n => .of (.int n, some { ty := .int })
  | .tt => .of (.tt, some { ty := .boolean })
  | .ff => .of (.ff, some { ty := .boolean })
  | .name x => do
    match ← s.resolve line x with
    | none => return (.name x, none)
    | some (v, ty) => do
      s.checkInitialized line x v
      return (.name x, some ⟨ty, some (.var v)⟩)
  | .this =>
    match s.place.method with
    | none => do
      report line .thisInMain
      return (.this, none)
    | some _ => .of (.this, some { ty := .object (s.table.nameOf s.place.cls) })
  | .newIntArray size => do
    let size ← typeExpr s size
    let ok ← expect line size .int .arraySizeMustBeInt
    return (.newIntArray size, noteIf ok .intArray none)
  | .newBooleanArray size => do
    let size ← typeExpr s size
    let ok ← expect line size .int .arraySizeMustBeInt
    return (.newBooleanArray size, noteIf ok .booleanArray none)
  | .newObject name => do
    let cls ← s.instantiate line name
    return (.newObject name, cls.map fun c => ⟨.object name, some (.cls c)⟩)
  | .bracket inner => do
    let inner ← typeExpr s inner
    return (.bracket inner, inner.note)

/-- All arguments are typed, whatever is wrong with one of them. -/
def typeArgs (s : Scope) (line : Nat) (method : Name) (position : Nat) (tys : List Ty) :
    List (Expr Unit) → Found (List (Expr Note) × Bool)
  | [] => .of ([], true)
  | arg :: args => do
    let arg ← typeExpr s arg
    let ok ← checkArg s line method position (tys.headD .int) arg
    let (args, all) ← typeArgs s line method (position + 1) tys.tail args
    return (arg :: args, ok && all)

end

end MiniJava.Check
