import MiniJava.Class.Table

/-! Types of the intermediate representation, and how source types are represented: `int[]` points
to the count and the elements, all 32 bits wide; `boolean[]` points to bytes, a 32 bit count and one
byte for each element; objects are pointers to bytes. -/
namespace MiniJava

inductive IRType where
  | void
  | i1
  | i8
  | i32
  | ptr (target : IRType)
  | array (size : Nat) (element : IRType)
  | fn (result : IRType) (params : List IRType)
  deriving Inhabited

mutual

def IRType.text : IRType → String
  | .void => "void"
  | .i1 => "i1"
  | .i8 => "i8"
  | .i32 => "i32"
  | .ptr target => target.text ++ "*"
  | .array size element => s!"[{size} x " ++ element.text ++ "]"
  | .fn result params => result.text ++ " (" ++ paramsText params ++ ")"

def paramsText : List IRType → String
  | [] => ""
  | [t] => t.text
  | t :: ts => t.text ++ ", " ++ paramsText ts

end

/-- A pointer to bytes: any object, and any function in a table of methods. -/
abbrev IRType.bytes : IRType := .ptr .i8

def Ty.ir : Ty → IRType
  | .int => .i32
  | .boolean => .i1
  | .intArray => .ptr .i32
  | .booleanArray | .object _ => .bytes

/-- Bytes of a value inside an object. -/
def Ty.size : Ty → Nat
  | .int => 4
  | .boolean => 1
  | .intArray | .booleanArray | .object _ => 8

/-- The function that a method becomes takes the object first. -/
def Method.signature (m : Method) : IRType := .fn m.returnTy.ir (.bytes :: m.paramTys.map Ty.ir)

end MiniJava
