import MiniJava.Codegen.Memory

/-! Code for expressions. A node is compiled from the notes that analysis left; the note of an array
and of a message is asked for before any code of the operands is written. -/
namespace MiniJava.Codegen
open IR

abbrev Note := Option ExprInfo

def infoOf (e : Expr Note) : Gen ExprInfo := ofOption (.missingAnalysis e.kind e.line) e.note

def arithOf : BinOp → Value → Value → Rhs
  | .add, a, b => .arith .add .i32 a b
  | .sub, a, b => .arith .sub .i32 a b
  | .mul, a, b => .arith .mul .i32 a b
  | .less, a, b => .compare .lt .i32 a b
  | .and, a, b => .arith .and .i1 a b

/-- The first operand decides, or else the value of the second one counts. -/
def genAnd (lhs rhs : Gen Value) : Gen Value := do
  let lhs ← lhs
  let index ← nextAnd
  let decided ← currentBlock
  emit (.branch lhs (.block .andRhs index) (.block .andEnd index))
  startBlock (.block .andRhs index)
  let rhs ← rhs
  let computed ← currentBlock
  emit (.jump (.block .andEnd index))
  startBlock (.block .andEnd index)
  emitValue (.phi .i1 [(.bool false, decided), (rhs, computed)])

/-- Calls the function in slot `slot` of the receiver's table of methods. -/
def invoke (m : Method) (slot : Nat) (receiver : Value) (args : List (IRType × Value)) :
    Gen Value := do
  let header ← emitValue (.cast .bitcast .bytes receiver (.ptr (.ptr .bytes)))
  let table ← emitValue (.load (.ptr .bytes) header)
  let entry ← emitValue (.address .bytes table [.int slot])
  let code ← emitValue (.load .bytes entry)
  let function ← emitValue (.cast .bitcast .bytes code (.ptr m.signature))
  emitValue (.call m.returnTy.ir function ((.bytes, receiver) :: args))

def resolvedVar (unresolved : CodegenError) (info : ExprInfo) : Gen VarRef :=
  match info.ref with
  | some (.var v) => .of v
  | _ => fail unresolved

def resolvedMethod (unresolved : CodegenError) (info : ExprInfo) : Gen MethodRef :=
  match info.ref with
  | some (.method m) => .of m
  | _ => fail unresolved

def resolvedClass (unresolved : CodegenError) (info : ExprInfo) : Gen ClassId :=
  match info.ref with
  | some (.cls c) => .of c
  | _ => fail unresolved

mutual

def genExpr (c : Env) : Expr Note → Gen Value
  | .node line note form => genForm c line note form

def genForm (c : Env) (line : Nat) (note : Note) : ExprForm Note → Gen Value
  | .binary op a b =>
    if op = .and then genAnd (genExpr c a) (genExpr c b)
    else do
      let a ← genExpr c a
      let b ← genExpr c b
      emitValue (arithOf op a b)
  | .not e => do
    let e ← genExpr c e
    emitValue (.arith .xor .i1 (.int 1) e)
  | .lookup a i => do
    let info ← infoOf a
    let a ← genExpr c a
    let i ← genExpr c i
    let element ← elementPointer info.ty a i
    loadElement info.ty element
  | .length a => do
    let info ← infoOf a
    let a ← genExpr c a
    arrayLength info.ty a
  | .send receiver name args => do
    let kind := (ExprForm.send receiver name args).kind
    let info ← ofOption (.missingAnalysis kind line) note
    let r ← resolvedMethod (.missingResolution kind line) info
    let m ← ofOption .dangling (c.table.method? r)
    let slot ← ofOption (.missingSlot m.name) m.slot?
    let receiver ← genExpr c receiver
    let args ← genArgs c m.paramTys args
    invoke m slot receiver args
  | .int n => .of (.int n.toInt)
  | .tt => .of (.bool true)
  | .ff => .of (.bool false)
  | .name x => do
    let kind := (ExprForm.name x : ExprForm Note).kind
    let info ← ofOption (.missingAnalysis kind line) note
    let v ← resolvedVar (.missingResolution kind line) info
    loadVar c v
  | .this => .of .this
  | .newIntArray n => do
    let n ← genExpr c n
    newArray .intArray n
  | .newBooleanArray n => do
    let n ← genExpr c n
    newArray .booleanArray n
  | .newObject name => do
    let kind := (ExprForm.newObject name : ExprForm Note).kind
    let info ← ofOption (.missingAnalysis kind line) note
    let id ← resolvedClass (.missingResolution kind line) info
    let l ← ofOption .dangling (c.layout[id]?)
    newObject l
  | .bracket e => genExpr c e

/-- As many arguments as there are parameters. -/
def genArgs (c : Env) (tys : List Ty) : List (Expr Note) → Gen (List (IRType × Value))
  | [] => .of []
  | e :: es =>
    match tys with
    | [] => .of []
    | ty :: tys => do
      let v ← genExpr c e
      let vs ← genArgs c tys es
      return (ty.ir, v) :: vs

end

end MiniJava.Codegen
