import MiniJava.Name.Table
import MiniJava.Syntax

/-! The tree that analysis is given: names and types have lines of their own, except the name of an
expression that is an identifier and the class in a type. Building it from a document puts every name
into a table of names. -/
namespace MiniJava

namespace Lowered

mutual

inductive Expr where
  | node (line : Nat) (form : Form)

inductive Form where
  | binary (op : BinOp) (lhs rhs : Expr)
  | lookup (array index : Expr)
  | length (array : Expr)
  | send (receiver : Expr) (method : Located Name) (args : List Expr)
  | int (value : Int32)
  | tt
  | ff
  | name (name : Name)
  | this
  | newIntArray (size : Expr)
  | newBooleanArray (size : Expr)
  | newObject (cls : Located Name)
  | not (operand : Expr)
  | bracket (inner : Expr)

end

mutual

inductive Stmt where
  | node (line : Nat) (form : StmtForm)

inductive StmtForm where
  | block (body : List Stmt)
  | assign (target : Located Name) (value : Expr)
  | arrayAssign (target : Located Name) (index value : Expr)
  | ifElse (cond : Expr) (yes no : Stmt)
  | while (cond : Expr) (body : Stmt)
  | print (value : Expr)

end

structure VarDecl where
  ty : Located Ty
  name : Located Name

structure MethodDecl where
  returnTy : Located Ty
  name : Located Name
  params : List (Located VarDecl)
  vars : List (Located VarDecl)
  body : List Stmt
  result : Expr

structure ClassDecl where
  name : Located Name
  superclass : Option (Located Name)
  fields : List (Located VarDecl)
  methods : List (Located MethodDecl)

structure MainClass where
  name : Located Name
  param : Located Name
  vars : List (Located VarDecl)
  body : List Stmt

structure Program where
  main : Located MainClass
  classes : List (Located ClassDecl)

end Lowered

namespace Lowering
open Name

abbrev Lower (α : Type) : Type := StateM Table α

def symbol (name : Name) : Lower Name := fun t => (name, t.insert name)

def located (line : Nat) (name : Name) : Lower (Located Name) := do
  let name ← symbol name
  return ⟨line, name⟩

def ty : Ty → Lower Ty
  | .int => return .int
  | .boolean => return .boolean
  | .intArray => return .intArray
  | .booleanArray => return .booleanArray
  | .object name => do
    let name ← symbol name
    return .object name

mutual

def expr : Expr Unit → Lower Lowered.Expr
  | .node line _ form => do
    let form ← exprForm line form
    return .node line form

def exprForm (line : Nat) : ExprForm Unit → Lower Lowered.Form
  | .binary op a b => do
    let a ← expr a
    let b ← expr b
    return .binary op a b
  | .lookup a i => do
    let a ← expr a
    let i ← expr i
    return .lookup a i
  | .length a => do
    let a ← expr a
    return .length a
  | .send r m as => do
    let r ← expr r
    let m ← located line m
    let as ← args as
    return .send r m as
  | .int n => return .int n
  | .tt => return .tt
  | .ff => return .ff
  | .name x => do
    let x ← symbol x
    return .name x
  | .this => return .this
  | .newIntArray n => do
    let n ← expr n
    return .newIntArray n
  | .newBooleanArray n => do
    let n ← expr n
    return .newBooleanArray n
  | .newObject c => do
    let c ← located line c
    return .newObject c
  | .not e => do
    let e ← expr e
    return .not e
  | .bracket e => do
    let e ← expr e
    return .bracket e

def args : List (Expr Unit) → Lower (List Lowered.Expr)
  | [] => return []
  | e :: es => do
    let e ← expr e
    let es ← args es
    return e :: es

end

mutual

def stmt : Stmt Unit Unit → Lower Lowered.Stmt
  | .block line ss => do
    let ss ← body ss
    return .node line (.block ss)
  | .assign line x _ e => do
    let x ← located line x
    let e ← expr e
    return .node line (.assign x e)
  | .arrayAssign line x _ i e => do
    let x ← located line x
    let i ← expr i
    let e ← expr e
    return .node line (.arrayAssign x i e)
  | .ifElse line c s t => do
    let c ← expr c
    let s ← stmt s
    let t ← stmt t
    return .node line (.ifElse c s t)
  | .while line c s => do
    let c ← expr c
    let s ← stmt s
    return .node line (.while c s)
  | .print line e => do
    let e ← expr e
    return .node line (.print e)

def body : List (Stmt Unit Unit) → Lower (List Lowered.Stmt)
  | [] => return []
  | s :: ss => do
    let s ← stmt s
    let ss ← body ss
    return s :: ss

end

def each {α β : Type} (f : α → Lower β) : List α → Lower (List β)
  | [] => return []
  | x :: xs => do
    let y ← f x
    let ys ← each f xs
    return y :: ys

def var (v : VarDecl) : Lower (Located Lowered.VarDecl) := do
  let type ← ty v.ty
  let name ← located v.line v.name
  return ⟨v.line, ⟨⟨v.line, type⟩, name⟩⟩

def method (m : MethodDecl .bare) : Lower (Located Lowered.MethodDecl) := do
  let returnTy ← ty m.returnTy
  let name ← located m.line m.name
  let params ← each var m.params
  let vars ← each var m.vars
  let body ← body m.body
  let result ← expr m.result
  return ⟨m.line, ⟨⟨m.line, returnTy⟩, name, params, vars, body, result⟩⟩

def superclass (line : Nat) : Option Name → Lower (Option (Located Name))
  | none => return none
  | some name => do
    let name ← located line name
    return some name

def cls (c : ClassDecl .bare) : Lower (Located Lowered.ClassDecl) := do
  let name ← located c.line c.name
  let superclass ← superclass c.line c.superclass
  let fields ← each var c.fields
  let methods ← each method c.methods
  return ⟨c.line, ⟨name, superclass, fields, methods⟩⟩

def main (c : MainClass .bare) : Lower (Located Lowered.MainClass) := do
  let name ← located c.line c.name
  let param ← located c.line c.param
  let vars ← each var c.vars
  let body ← body c.body
  return ⟨c.line, ⟨name, param, vars, body⟩⟩

def program (p : Program .bare) : Lower Lowered.Program := do
  let main ← main p.main
  let classes ← each cls p.classes
  return ⟨main, classes⟩

end Lowering

namespace Document

/-- The tree of a program and the table of its names. -/
def lower (p : Program .bare) : Lowered.Program × Name.Table := (Lowering.program p).run .empty

end Document

end MiniJava
