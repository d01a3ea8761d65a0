import MiniJava.Codegen.Expression
import MiniJava.IR.Module

/-! Code for statements, and functions from bodies. -/
namespace MiniJava.Codegen
open IR

abbrev Target := Option VarRef

def genIf (cond : Gen Value) (yes no : Gen Unit) : Gen Unit := do
  let cond ← cond
  let index ← nextIf
  emit (.branch cond (.block .ifThen index) (.block .ifElse index))
  startBlock (.block .ifThen index)
  yes
  emit (.jump (.block .ifEnd index))
  startBlock (.block .ifElse index)
  no
  emit (.jump (.block .ifEnd index))
  startBlock (.block .ifEnd index)

def genWhile (cond : Gen Value) (body : Gen Unit) : Gen Unit := do
  let index ← nextLoop
  emit (.jump (.block .loopCond index))
  startBlock (.block .loopCond index)
  let cond ← cond
  emit (.branch cond (.block .loopBody index) (.block .loopEnd index))
  startBlock (.block .loopBody index)
  body
  emit (.jump (.block .loopCond index))
  startBlock (.block .loopEnd index)

def genPrint (value : Value) : Gen Unit :=
  emit (.call (.fn .void [.i32]) (.global Builtin.printInt.name) [(.i32, value)])

mutual

def genStmt (c : Env) : Stmt Note Target → Gen Unit
  | .block _ body => genStmts c body
  | .assign line x target value => do
    let value ← genExpr c value
    let v ← ofOption (.missingTarget x line) target
    storeVar c v value
  | .arrayAssign line x target index value => do
    let v ← ofOption (.missingTarget x line) target
    let ty ← varTy c v
    let array ← loadVar c v
    let index ← genExpr c index
    let value ← genExpr c value
    let element ← elementPointer ty array index
    storeElement ty element value
  | .ifElse _ cond yes no => genIf (genExpr c cond) (genStmt c yes) (genStmt c no)
  | .while _ cond body => genWhile (genExpr c cond) (genStmt c body)
  | .print _ value => do
    let value ← genExpr c value
    genPrint value

def genStmts (c : Env) : List (Stmt Note Target) → Gen Unit
  | [] => .of ()
  | s :: ss => do
    genStmt c s
    genStmts c ss

end

def allocate (c : Env) : List Local → Gen Unit
  | [] => .of ()
  | x :: xs => do
    emit (.alloca (c.slot x) x.ty.ir)
    allocate c xs

/-- Copies parameters into their stack slots. -/
def storeParams (c : Env) : List Local → Gen Unit
  | [] => .of ()
  | x :: xs => do
    emit (.store x.ty.ir (.param x.name) (c.slot x))
    storeParams c xs

def genSlots (c : Env) (params : List Local) : Gen Unit := do
  startBlock .entry
  allocate c c.locals
  storeParams c params

def mainHeader : Header := ⟨.i32, "main", []⟩

def mainBody (c : Env) (body : List (Stmt Note Target)) : Gen Unit := do
  genSlots c []
  genStmts c body
  emit (.ret .i32 (.int 0))

def methodHeader (t : ClassTable) (m : Method) : Header :=
  ⟨m.returnTy.ir, t.nameOf m.owner ++ "." ++ m.name,
    (.bytes, .this) :: m.params.map fun x => (x.ty.ir, .param x.name)⟩

def methodBody (c : Env) (m : Method) (body : List (Stmt Note Target)) (result : Expr Note) :
    Gen Unit := do
  genSlots c m.params
  genStmts c body
  let value ← genExpr c result
  emit (.ret m.returnTy.ir value)

end MiniJava.Codegen
