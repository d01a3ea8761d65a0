import MiniJava.IR.Type

/-! Lines of a function: labels that begin blocks, and instructions with the types they are written
with. Temporaries are numbered in every function, labels through the whole module. -/
namespace MiniJava.IR

inductive Value where
  | temp (index : Nat)
  | int (value : Int)
  | bool (value : Bool)
  | this
  | param (name : Name)
  /-- the stack slot of a local -/
  | slot (name : String)
  | global (name : String)
  deriving DecidableEq, Repr

def Value.text : Value → String
  | .temp index => s!"%_{index}"
  | .int value => toString value
  | .bool true => "true"
  | .bool false => "false"
  | .this => "%this"
  | .param name => s!"%.{name}"
  | .slot name => s!"%{name}"
  | .global name => s!"@{name}"

/-- The part of a construct that a block belongs to. -/
inductive Role where
  | ifThen
  | ifElse
  | ifEnd
  | loopCond
  | loopBody
  | loopEnd
  | boundsOk
  | boundsErr
  | sizeOk
  | sizeErr
  | andRhs
  | andEnd
  deriving DecidableEq, Repr

def Role.text : Role → String
  | .ifThen => "if_then"
  | .ifElse => "if_else"
  | .ifEnd => "if_end"
  | .loopCond => "loop_cond"
  | .loopBody => "loop_body"
  | .loopEnd => "loop_end"
  | .boundsOk => "oob_ok"
  | .boundsErr => "oob_err"
  | .sizeOk => "nsz_ok"
  | .sizeErr => "nsz_err"
  | .andRhs => "and_rhs"
  | .andEnd => "and_end"

inductive Label where
  | entry
  | block (role : Role) (index : Nat)
  deriving DecidableEq, Repr

def Label.text : Label → String
  | .entry => "entry"
  | .block role index => role.text ++ s!"_{index}"

/-- A label where a branch names it. -/
def Label.operand (l : Label) : String := "label %" ++ l.text

inductive Arith where
  | add
  | sub
  | mul
  | and
  | xor
  deriving DecidableEq, Repr

def Arith.text : Arith → String
  | .add => "add"
  | .sub => "sub"
  | .mul => "mul"
  | .and => "and"
  | .xor => "xor"

/-- Signed comparisons. -/
inductive Cond where
  | lt
  | ge
  deriving DecidableEq, Repr

def Cond.text : Cond → String
  | .lt => "slt"
  | .ge => "sge"

inductive Cast where
  | bitcast
  | trunc
  | zext
  deriving DecidableEq, Repr

def Cast.text : Cast → String
  | .bitcast => "bitcast"
  | .trunc => "trunc"
  | .zext => "zext"

/-- What makes the value of a temporary. -/
inductive Rhs where
  | load (ty : IRType) (ptr : Value)
  | arith (op : Arith) (ty : IRType) (a b : Value)
  | compare (cond : Cond) (ty : IRType) (a b : Value)
  | cast (op : Cast) (source : IRType) (value : Value) (target : IRType)
  /-- the address of an element, found by 32 bit indices -/
  | address (ty : IRType) (base : Value) (path : List Value)
  | call (ty : IRType) (callee : Value) (args : List (IRType × Value))
  | phi (ty : IRType) (incoming : List (Value × Label))

inductive Instr where
  | alloca (slot : Value) (ty : IRType)
  | set (dst : Nat) (rhs : Rhs)
  | store (ty : IRType) (value ptr : Value)
  | call (ty : IRType) (callee : Value) (args : List (IRType × Value))
  | jump (target : Label)
  | branch (cond : Value) (yes no : Label)
  | ret (ty : IRType) (value : Value)
  | unreachable

def commas (xs : List String) : String := String.intercalate ", " xs

def typed (ty : IRType) (v : Value) : String := ty.text ++ " " ++ v.text

def argTexts (args : List (IRType × Value)) : String :=
  commas (args.map fun (ty, v) => typed ty v)

def callText (ty : IRType) (callee : Value) (args : List (IRType × Value)) : String :=
  "call " ++ ty.text ++ " " ++ callee.text ++ "(" ++ argTexts args ++ ")"

def incomingText : Value × Label → String
  | (v, l) => "[ " ++ v.text ++ ", %" ++ l.text ++ " ]"

def Rhs.text : Rhs → String
  | .load ty ptr => "load " ++ ty.text ++ ", " ++ typed (.ptr ty) ptr
  | .arith op ty a b => op.text ++ " " ++ typed ty a ++ ", " ++ b.text
  | .compare cond ty a b => "icmp " ++ cond.text ++ " " ++ typed ty a ++ ", " ++ b.text
  | .cast op source value target => op.text ++ " " ++ typed source value ++ " to " ++ target.text
  | .address ty base path =>
    "getelementptr " ++ commas (ty.text :: typed (.ptr ty) base :: path.map (typed .i32))
  | .call ty callee args => callText ty callee args
  | .phi ty incoming => "phi " ++ ty.text ++ " " ++ commas (incoming.map incomingText)

def Instr.text : Instr → String
  | .alloca slot ty => slot.text ++ " = alloca " ++ ty.text
  | .set dst rhs => (Value.temp dst).text ++ " = " ++ rhs.text
  | .store ty value ptr => "store " ++ typed ty value ++ ", " ++ typed (.ptr ty) ptr
  | .call ty callee args => callText ty callee args
  | .jump target => "br " ++ target.operand
  | .branch cond yes no => "br " ++ commas [typed .i1 cond, yes.operand, no.operand]
  | .ret ty value => "ret " ++ typed ty value
  | .unreachable => "unreachable"

inductive Line where
  | label (l : Label)
  | instr (i : Instr)

def Line.text : Line → String
  | .label l => l.text ++ ":\n"
  | .instr i => "\t" ++ i.text ++ "\n"

end MiniJava.IR
