import MiniJava.Class.Reference
import MiniJava.Codegen.Emit
import MiniJava.IR.Prelude
import MiniJava.Layout.Object

/-! Code for variables, objects and arrays. Locals live in stack slots, fields at an offset from
`this`. An array of integers has its count in element 0; an array of booleans has a count of four
bytes and then one byte for each element. -/
namespace MiniJava.Codegen
open IR

/-- What the code of one body refers to. -/
structure Env where
  table : ClassTable
  layout : Layout
  /-- begins the names of the stack slots -/
  scope : String
  locals : List Local

def Env.slot (c : Env) (x : Local) : Value := .slot (c.scope ++ "_" ++ x.name)

def varTy (c : Env) : VarRef → Gen Ty
  | .loc i => ofOption .dangling ((c.locals[i]?).map (·.ty))
  | .field r => ofOption .dangling ((c.table.field? r).map (·.ty))

def varPointer (c : Env) : VarRef → Gen Value
  | .loc i => ofOption .dangling ((c.locals[i]?).map c.slot)
  | .field r => do
    let f ← ofOption .dangling (c.table.field? r)
    let offset ← ofOption (.missingFieldOffset f.name) f.offset
    let address ← emitValue (.address .i8 .this [.int (Layout.headerSize + offset)])
    emitValue (.cast .bitcast .bytes address (.ptr f.ty.ir))

def loadVar (c : Env) (v : VarRef) : Gen Value := do
  let ty ← varTy c v
  let pointer ← varPointer c v
  emitValue (.load ty.ir pointer)

def storeVar (c : Env) (v : VarRef) (value : Value) : Gen Unit := do
  let ty ← varTy c v
  let pointer ← varPointer c v
  emit (.store ty.ir value pointer)

def callBuiltin (b : Builtin) (result : IRType) (args : List (IRType × Value)) : Rhs :=
  .call result (.global b.name) args

def calloc (bytes : Value) : Gen Value :=
  emitValue (callBuiltin .calloc .bytes [(.i32, .int 1), (.i32, bytes)])

/-- Asks for an object and writes the address of its table into the header. -/
def newObject (l : ClassLayout) : Gen Value := do
  let object ← calloc (.int l.allocSize)
  let header ← emitValue (.cast .bitcast .bytes object (.ptr (.ptr .bytes)))
  let table : Value := .global s!".{l.name}_vtable"
  let first ← emitValue (.address l.vtable.type table [.int 0, .int 0])
  emit (.store (.ptr .bytes) first header)
  return object

/-- Elements of an array are 32 bits or one byte wide. -/
def isWide : Ty → Bool
  | .intArray => true
  | _ => false

def countBytes : Nat := 4

/-- The block that stops the program, when a check has failed. -/
def trap (label : Label) (b : Builtin) : Gen Unit := do
  startBlock label
  emit (.call .void (.global b.name) [])
  emit .unreachable

def newArray (ty : Ty) (size : Value) : Gen Value := do
  let data ← if isWide ty then emitValue (.arith .mul .i32 size (.int 4)) else .of size
  let total ← emitValue (.arith .add .i32 data (.int countBytes))
  let valid ← emitValue (.compare .ge .i32 total (.int countBytes))
  let index ← nextSize
  emit (.branch valid (.block .sizeOk index) (.block .sizeErr index))
  trap (.block .sizeErr index) .negativeSize
  startBlock (.block .sizeOk index)
  let memory ← calloc total
  let count ← emitValue (.cast .bitcast .bytes memory (.ptr .i32))
  emit (.store .i32 size count)
  return if isWide ty then count else memory

def arrayLength (ty : Ty) (array : Value) : Gen Value := do
  let count ← if isWide ty then .of array else emitValue (.cast .bitcast .bytes array (.ptr .i32))
  emitValue (.load .i32 count)

/-- The address of an element, after a check that the index is inside the array. -/
def elementPointer (ty : Ty) (array index : Value) : Gen Value := do
  let length ← arrayLength ty array
  let notNegative ← emitValue (.compare .ge .i32 index (.int 0))
  let below ← emitValue (.compare .lt .i32 index length)
  let inside ← emitValue (.arith .and .i1 notNegative below)
  let label ← nextBounds
  emit (.branch inside (.block .boundsOk label) (.block .boundsErr label))
  trap (.block .boundsErr label) .outOfBounds
  startBlock (.block .boundsOk label)
  if isWide ty then do
    let position ← emitValue (.arith .add .i32 index (.int 1))
    emitValue (.address .i32 array [position])
  else do
    let position ← emitValue (.arith .add .i32 index (.int countBytes))
    emitValue (.address .i8 array [position])

/-- Booleans are one bit in a temporary and one byte in memory. -/
def loadElement (ty : Ty) (element : Value) : Gen Value :=
  if isWide ty then emitValue (.load .i32 element)
  else do
    let byte ← emitValue (.load .i8 element)
    emitValue (.cast .trunc .i8 byte .i1)

def storeElement (ty : Ty) (element value : Value) : Gen Unit :=
  if isWide ty then emit (.store .i32 value element)
  else do
    let byte ← emitValue (.cast .zext .i1 value .i8)
    emit (.store .i8 byte element)

end MiniJava.Codegen
