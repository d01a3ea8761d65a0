import MiniJava.Class.Reference

/-! Nodes are told apart by their places, not by what they hold. The places of the expressions and
assignment targets of a program are their numbers in its order: a node comes before what is inside it,
and the target of an assignment before its expressions. Each of the two kinds is numbered from 0 on its
own. -/
namespace MiniJava

/-- A set of places. -/
structure Places where
  members : List Nat

namespace Places

def empty : Places := ⟨[]⟩

def size (s : Places) : Nat := s.members.length

/-- Whether the place is new, and the set with it. -/
def insert (s : Places) (place : Nat) : Bool × Places :=
  if s.members.contains place then (false, s) else (true, ⟨place :: s.members⟩)

end Places

inductive Item (ν τ : Type) where
  | expr (e : Expr ν)
  | target (name : Located Name) (note : τ)

section Items
variable {ν τ : Type}

mutual

def Expr.all : Expr ν → List (Expr ν)
  | .node line note form => .node line note form :: form.all

def ExprForm.all : ExprForm ν → List (Expr ν)
  | .binary _ a b => a.all ++ b.all
  | .lookup a i => a.all ++ i.all
  | .send r _ args => r.all ++ allArgs args
  | .length e | .newIntArray e | .newBooleanArray e | .not e | .bracket e => e.all
  | .int _ | .tt | .ff | .name _ | .this | .newObject _ => []

def allArgs : List (Expr ν) → List (Expr ν)
  | [] => []
  | e :: es => e.all ++ allArgs es

end

def Expr.items (e : Expr ν) : List (Item ν τ) := e.all.map .expr

mutual

def Stmt.items : Stmt ν τ → List (Item ν τ)
  | .block _ body => bodyItems body
  | .assign line x note e => .target ⟨line, x⟩ note :: e.items
  | .arrayAssign line x note i e => .target ⟨line, x⟩ note :: (i.items ++ e.items)
  | .ifElse _ c s t => c.items ++ s.items ++ t.items
  | .while _ c s => c.items ++ s.items
  | .print _ e => e.items

def bodyItems : List (Stmt ν τ) → List (Item ν τ)
  | [] => []
  | s :: ss => s.items ++ bodyItems ss

end

variable {N : Notes}

def MethodDecl.items (m : MethodDecl N) : List (Item N.expr N.target) :=
  bodyItems m.body ++ m.result.items

def ClassDecl.items (c : ClassDecl N) : List (Item N.expr N.target) := c.methods.flatMap (·.items)

def Program.items (p : Program N) : List (Item N.expr N.target) :=
  bodyItems p.main.body ++ p.classes.flatMap (·.items)

end Items

/-- The numbers of the next expression and the next target. -/
structure Counts where
  exprs : Nat := 0
  targets : Nat := 0

def nextExpr : StateM Counts Nat := fun n => (n.exprs, { n with exprs := n.exprs + 1 })

def nextTarget : StateM Counts Nat := fun n => (n.targets, { n with targets := n.targets + 1 })

section Relabel
variable {ν μ τ σ : Type}

mutual

/-- New notes from the number and the note of each expression. -/
def Expr.relabel (f : Nat → ν → μ) : Expr ν → StateM Counts (Expr μ)
  | .node line note form => do
    let k ← nextExpr
    let form ← form.relabel f
    return .node line (f k note) form

def ExprForm.relabel (f : Nat → ν → μ) : ExprForm ν → StateM Counts (ExprForm μ)
  | .binary op a b => do
    let a ← a.relabel f
    let b ← b.relabel f
    return .binary op a b
  | .lookup a i => do
    let a ← a.relabel f
    let i ← i.relabel f
    return .lookup a i
  | .length a => do
    let a ← a.relabel f
    return .length a
  | .send r m args => do
    let r ← r.relabel f
    let args ← relabelArgs f args
    return .send r m args
  | .int v => return .int v
  | .tt => return .tt
  | .ff => return .ff
  | .name x => return .name x
  | .this => return .this
  | .newIntArray e => do
    let e ← e.relabel f
    return .newIntArray e
  | .newBooleanArray e => do
    let e ← e.relabel f
    return .newBooleanArray e
  | .newObject c => return .newObject c
  | .not e => do
    let e ← e.relabel f
    return .not e
  | .bracket e => do
    let e ← e.relabel f
    return .bracket e

def relabelArgs (f : Nat → ν → μ) : List (Expr ν) → StateM Counts (List (Expr μ))
  | [] => return []
  | e :: es => do
    let e ← e.relabel f
    let es ← relabelArgs f es
    return e :: es

end

mutual

def Stmt.relabel (f : Nat → ν → μ) (g : Nat → τ → σ) : Stmt ν τ → StateM Counts (Stmt μ σ)
  | .block line body => do
    let body ← relabelBody f g body
    return .block line body
  | .assign line x note e => do
    let k ← nextTarget
    let e ← e.relabel f
    return .assign line x (g k note) e
  | .arrayAssign line x note i e => do
    let k ← nextTarget
    let i ← i.relabel f
    let e ← e.relabel f
    return .arrayAssign line x (g k note) i e
  | .ifElse line c s t => do
    let c ← c.relabel f
    let s ← s.relabel f g
    let t ← t.relabel f g
    return .ifElse line c s t
  | .while line c s => do
    let c ← c.relabel f
    let s ← s.relabel f g
    return .while line c s
  | .print line e => do
    let e ← e.relabel f
    return .print line e

def relabelBody (f : Nat → ν → μ) (g : Nat → τ → σ) :
    List (Stmt ν τ) → StateM Counts (List (Stmt μ σ))
  | [] => return []
  | s :: ss => do
    let s ← s.relabel f g
    let ss ← relabelBody f g ss
    return s :: ss

end

end Relabel

end MiniJava
