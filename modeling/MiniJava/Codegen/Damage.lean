import MiniJava.Check.Analysis
import MiniJava.Identity

/-! Analysis results with parts taken away, to see what code generation makes of the rest. Classes,
methods and fields are named, expressions and targets numbered in the order of the program. -/
namespace MiniJava.Codegen

structure Damage where
  /-- the declaration of a class is not registered -/
  cls : Name → Bool
  /-- the declaration of a method of a class is not registered -/
  method : Name → Name → Bool
  /-- nothing is known about an expression -/
  expr : Nat → Bool
  /-- an expression keeps its type, but refers to nothing -/
  unresolved : Nat → Bool
  /-- a target refers to nothing -/
  target : Nat → Bool
  /-- a method has no slot -/
  slot : Name → Name → Bool
  /-- a field has no offset -/
  offset : Name → Name → Bool

namespace Damage

def exprNote (d : Damage) (k : Nat) (note : Option ExprInfo) : Option ExprInfo :=
  if d.expr k then none
  else if d.unresolved k then note.map fun info => { info with ref := none }
  else note

def targetNote (d : Damage) (k : Nat) (note : Option VarRef) : Option VarRef :=
  if d.target k then none else note

def methodDecl (d : Damage) (cls : Name) (m : MethodDecl .checked) :
    StateM Counts (MethodDecl .checked) := do
  let body ← relabelBody d.exprNote d.targetNote m.body
  let result ← m.result.relabel d.exprNote
  return { m with note := if d.method cls m.name then none else m.note, body, result }

def methodDecls (d : Damage) (cls : Name) :
    List (MethodDecl .checked) → StateM Counts (List (MethodDecl .checked))
  | [] => return []
  | m :: ms => do
    let m ← d.methodDecl cls m
    let ms ← d.methodDecls cls ms
    return m :: ms

def classDecls (d : Damage) : List (ClassDecl .checked) → StateM Counts (List (ClassDecl .checked))
  | [] => return []
  | c :: cs => do
    let methods ← d.methodDecls c.name c.methods
    let cs ← d.classDecls cs
    return { c with note := if d.cls c.name then none else c.note, methods } :: cs

def program (d : Damage) (p : Program .checked) : Program .checked :=
  let go : StateM Counts (Program .checked) := do
    let body ← relabelBody d.exprNote d.targetNote p.main.body
    let classes ← d.classDecls p.classes
    return ⟨{ p.main with body }, classes⟩
  (go {}).1

def members (d : Damage) (c : Class) : Class :=
  { c with
    fields := c.fields.map fun f => if d.offset c.name f.name then { f with offset := none } else f
    methods := c.methods.map fun m =>
      if d.slot c.name m.name then { m with slotOffset := none } else m }

def table (d : Damage) (t : ClassTable) : ClassTable :=
  { t with classes := t.classes.map d.members }

end Damage

end MiniJava.Codegen
