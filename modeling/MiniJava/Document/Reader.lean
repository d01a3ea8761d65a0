import MiniJava.Json.Parser
import MiniJava.Json.Record
import MiniJava.Syntax

/-! Programs from JSON documents. A record is an object, or an array of its fields in their order;
a variant is an object with one key, or a string if it has no content. Entering an object or an array
takes one of the levels that may be open at once; values that are not looked at take none. -/
namespace MiniJava.Document
open Json

/-- Levels that may be open at once. -/
def depth : Nat := 127

def defaultLine : Nat := 1

def line? : Option Json → Option Nat
  | none => some defaultLine
  | some v => nat64? v

def list? {α : Type} (item? : Nat → Json → Option α) : Nat → Option Json → Option (List α)
  | _, none => some []
  | n + 1, some (.arr items) => items.mapM (item? n)
  | _, some _ => none

def plainTy? : String → Option Ty
  | "Int" => some .int
  | "Boolean" => some .boolean
  | "IntArray" => some .intArray
  | "BooleanArray" => some .booleanArray
  | _ => none

def ty? : Nat → Json → Option Ty
  | _, .str (some tag) => plainTy? tag
  | _ + 1, .obj [(some "Class", .str (some name))] => some (.object name)
  | _ + 1, .obj [(some tag, .null)] => plainTy? tag
  | _, _ => none

def plainForm? : String → Option (ExprForm Unit)
  | "True" => some .tt
  | "False" => some .ff
  | "This" => some .this
  | _ => none

def unary? : String → Option (Expr Unit → ExprForm Unit)
  | "ArrayLength" => some .length
  | "NewIntArray" => some .newIntArray
  | "NewBooleanArray" => some .newBooleanArray
  | "Not" => some .not
  | "Bracket" => some .bracket
  | _ => none

def binary? : String → Option (Expr Unit → Expr Unit → ExprForm Unit)
  | "And" => some (.binary .and)
  | "Less" => some (.binary .less)
  | "Plus" => some (.binary .add)
  | "Minus" => some (.binary .sub)
  | "Times" => some (.binary .mul)
  | "ArrayLookup" => some .lookup
  | _ => none

def leaf? (tag : String) (content : Json) : Option (ExprForm Unit) :=
  match tag with
  | "Int" => (int32? content).map .int
  | "Identifier" => (text? content).map .name
  | "NewObject" => (text? content).map .newObject
  | _ => match content with
    | .null => plainForm? tag
    | _ => none

mutual

def expr? : Nat → Json → Option (Expr Unit)
  | 0, _ => none
  | n + 1, v =>
    match record? ["line", "kind"] v with
    | some [line, some kind] => do
      let line ← line? line
      let form ← form? n kind
      return .node line () form
    | _ => none

def form? : Nat → Json → Option (ExprForm Unit)
  | _, .str (some tag) => plainForm? tag
  | n + 1, .obj [(some tag, content)] =>
    match unary? tag, binary? tag, n, content with
    | some make, _, n, e => (expr? n e).map make
    | _, some make, n + 1, .arr [a, b] => do
      let a ← expr? n a
      let b ← expr? n b
      return make a b
    | _, some _, _, _ => none
    | _, _, n, content =>
      if tag = "MessageSend" then
        match n, content with
        | n + 2, .arr [receiver, .str (some method), .arr args] => do
          let receiver ← expr? (n + 1) receiver
          let args ← args.mapM (expr? n)
          return .send receiver method args
        | _, _ => none
      else leaf? tag content
  | _, _ => none

end

def stmt? : Nat → Json → Option (Stmt Unit Unit)
  | 0, _ => none
  | n + 1, v =>
    match record? ["line", "kind"] v with
    | some [line, some (.obj [(some tag, content)])] => do
      let line ← line? line
      match n, tag, content with
      | n + 2, "Block", .arr body => do
        let body ← body.mapM (stmt? n)
        return .block line body
      | n + 2, "Assign", .arr [.str (some target), value] => do
        let value ← expr? n value
        return .assign line target () value
      | n + 2, "ArrayAssign", .arr [.str (some target), index, value] => do
        let index ← expr? n index
        let value ← expr? n value
        return .arrayAssign line target () index value
      | n + 2, "If", .arr [cond, yes, no] => do
        let cond ← expr? n cond
        let yes ← stmt? n yes
        let no ← stmt? n no
        return .ifElse line cond yes no
      | n + 2, "While", .arr [cond, body] => do
        let cond ← expr? n cond
        let body ← stmt? n body
        return .while line cond body
      | n + 1, "Print", value => do
        let value ← expr? n value
        return .print line value
      | _, _, _ => none
    | _ => none

def var? : Nat → Json → Option VarDecl
  | 0, _ => none
  | n + 1, v =>
    match record? ["line", "ty", "name"] v with
    | some [line, some ty, some name] => do
      let line ← line? line
      let ty ← ty? n ty
      let name ← text? name
      return ⟨line, ty, name⟩
    | _ => none

def methodFields : List String :=
  ["line", "return_ty", "name", "params", "vars", "statements", "return_expr"]

def method? : Nat → Json → Option (MethodDecl .bare)
  | 0, _ => none
  | n + 1, v =>
    match record? methodFields v with
    | some [line, some returnTy, some name, params, vars, body, some result] => do
      let line ← line? line
      let returnTy ← ty? n returnTy
      let name ← text? name
      let params ← list? var? n params
      let vars ← list? var? n vars
      let body ← list? stmt? n body
      let result ← expr? n result
      return ⟨line, (), returnTy, name, params, vars, body, result⟩
    | _ => none

def superclass? : Option Json → Option (Option Name)
  | none | some .null => some none
  | some v => (text? v).map some

def classFields : List String := ["line", "name", "superclass", "fields", "methods"]

def class? : Nat → Json → Option (ClassDecl .bare)
  | 0, _ => none
  | n + 1, v =>
    match record? classFields v with
    | some [line, some name, superclass, fields, methods] => do
      let line ← line? line
      let name ← text? name
      let superclass ← superclass? superclass
      let fields ← list? var? n fields
      let methods ← list? method? n methods
      return ⟨line, (), name, superclass, fields, methods⟩
    | _ => none

def mainFields : List String := ["line", "name", "param_name", "vars", "statements"]

def main? : Nat → Json → Option (MainClass .bare)
  | 0, _ => none
  | n + 1, v =>
    match record? mainFields v with
    | some [line, some name, some param, vars, body] => do
      let line ← line? line
      let name ← text? name
      let param ← text? param
      let vars ← list? var? n vars
      let body ← list? stmt? n body
      return ⟨line, name, param, vars, body⟩
    | _ => none

def program? : Nat → Json → Option (Program .bare)
  | 0, _ => none
  | n + 1, v =>
    match record? ["main_class", "classes"] v with
    | some [some main, classes] => do
      let main ← main? n main
      let classes ← list? class? n classes
      return ⟨main, classes⟩
    | _ => none

/-- The program a JSON value describes. -/
def ofJson? (v : Json) : Option (Program .bare) := program? depth v

/-- The program a text describes; `none` if the text is no JSON or no program. -/
def read? (text : String) : Option (Program .bare) := (Json.parse? text.toList).bind ofJson?

/-- What a byte that belongs to no character is read as: a letter, which is wrong outside of strings and
behind a backslash, and half a character, which spoils the string that it is in. -/
def stray : String := "z\\ud800z"

/-- The characters from a position on. -/
def decodeFrom (bytes : ByteArray) (i : Nat) (before : String) : String :=
  if i < bytes.size then
    match bytes.utf8DecodeChar? i with
    | some c => decodeFrom bytes (i + c.utf8Size) (before.push c)
    | none => decodeFrom bytes (i + 1) (before ++ stray)
  else before
termination_by bytes.size - i
decreasing_by
  · have := c.utf8Size_pos
    omega
  · omega

/-- A file as a text. Strings that are not looked at need not be well-formed. -/
def decode (bytes : ByteArray) : String := (String.fromUTF8? bytes).getD (decodeFrom bytes 0 "")

end MiniJava.Document
