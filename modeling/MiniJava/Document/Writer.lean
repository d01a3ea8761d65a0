import MiniJava.Json.Printer
import MiniJava.Syntax

/-! Programs as JSON documents, in object form: every line is written, empty lists are left out. -/
namespace MiniJava.Document
open Json

def key (name : String) (v : Json) : Option String × Json := (some name, v)

def ofText (s : String) : Json := .str (some s)

def ofNat (n : Nat) : Json := .int n

def variant (tag : String) (content : Json) : Json := .obj [key tag content]

def ofList {α : Type} (name : String) (item : α → Json) : List α → List (Option String × Json)
  | [] => []
  | xs => [key name (.arr (xs.map item))]

def ofTy : Ty → Json
  | .int => ofText "Int"
  | .boolean => ofText "Boolean"
  | .intArray => ofText "IntArray"
  | .booleanArray => ofText "BooleanArray"
  | .object name => variant "Class" (ofText name)

def opTag : BinOp → String
  | .and => "And"
  | .less => "Less"
  | .add => "Plus"
  | .sub => "Minus"
  | .mul => "Times"

def node (line : Nat) (kind : Json) : Json := .obj [key "line" (ofNat line), key "kind" kind]

mutual

def ofExpr : Expr Unit → Json
  | .node line _ form => node line (ofForm form)

def ofForm : ExprForm Unit → Json
  | .binary op a b => variant (opTag op) (.arr [ofExpr a, ofExpr b])
  | .lookup a i => variant "ArrayLookup" (.arr [ofExpr a, ofExpr i])
  | .length a => variant "ArrayLength" (ofExpr a)
  | .send r m args => variant "MessageSend" (.arr [ofExpr r, ofText m, .arr (ofArgs args)])
  | .int n => variant "Int" (.int n.toInt)
  | .tt => ofText "True"
  | .ff => ofText "False"
  | .name x => variant "Identifier" (ofText x)
  | .this => ofText "This"
  | .newIntArray n => variant "NewIntArray" (ofExpr n)
  | .newBooleanArray n => variant "NewBooleanArray" (ofExpr n)
  | .newObject c => variant "NewObject" (ofText c)
  | .not e => variant "Not" (ofExpr e)
  | .bracket e => variant "Bracket" (ofExpr e)

def ofArgs : List (Expr Unit) → List Json
  | [] => []
  | e :: es => ofExpr e :: ofArgs es

end

mutual

def ofStmt : Stmt Unit Unit → Json
  | .block line body => node line (variant "Block" (.arr (ofBody body)))
  | .assign line x _ e => node line (variant "Assign" (.arr [ofText x, ofExpr e]))
  | .arrayAssign line x _ i e =>
    node line (variant "ArrayAssign" (.arr [ofText x, ofExpr i, ofExpr e]))
  | .ifElse line c s t => node line (variant "If" (.arr [ofExpr c, ofStmt s, ofStmt t]))
  | .while line c s => node line (variant "While" (.arr [ofExpr c, ofStmt s]))
  | .print line e => node line (variant "Print" (ofExpr e))

def ofBody : List (Stmt Unit Unit) → List Json
  | [] => []
  | s :: ss => ofStmt s :: ofBody ss

end

def ofVar (v : VarDecl) : Json :=
  .obj [key "line" (ofNat v.line), key "ty" (ofTy v.ty), key "name" (ofText v.name)]

def ofMethod (m : MethodDecl .bare) : Json :=
  .obj ([key "line" (ofNat m.line), key "return_ty" (ofTy m.returnTy), key "name" (ofText m.name)] ++
    ofList "params" ofVar m.params ++ ofList "vars" ofVar m.vars ++
    ofList "statements" ofStmt m.body ++ [key "return_expr" (ofExpr m.result)])

def ofSuperclass : Option Name → List (Option String × Json)
  | none => []
  | some name => [key "superclass" (ofText name)]

def ofClass (c : ClassDecl .bare) : Json :=
  .obj ([key "line" (ofNat c.line), key "name" (ofText c.name)] ++ ofSuperclass c.superclass ++
    ofList "fields" ofVar c.fields ++ ofList "methods" ofMethod c.methods)

def ofMain (c : MainClass .bare) : Json :=
  .obj ([key "line" (ofNat c.line), key "name" (ofText c.name), key "param_name" (ofText c.param)] ++
    ofList "vars" ofVar c.vars ++ ofList "statements" ofStmt c.body)

def toJson (p : Program .bare) : Json :=
  .obj (key "main_class" (ofMain p.main) :: ofList "classes" ofClass p.classes)

def write (p : Program .bare) : String := (toJson p).text

end MiniJava.Document
