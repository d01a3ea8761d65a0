/-! Trees of MiniJava programs. A node stands at a source line; expressions, assignment targets,
classes and methods also carry a note, whose type says how far the program has been analysed.
Equality of programs looks at neither lines nor notes. -/
namespace MiniJava

abbrev Name := String

inductive Ty where
  | int
  | boolean
  | intArray
  | booleanArray
  | object (name : Name)
  deriving DecidableEq, Repr, Inhabited

def Ty.text : Ty → String
  | .int => "int"
  | .boolean => "boolean"
  | .intArray => "int[]"
  | .booleanArray => "boolean[]"
  | .object name => name

def Ty.element? : Ty → Option Ty
  | .intArray => some .int
  | .booleanArray => some .boolean
  | _ => none

def Ty.isArray (t : Ty) : Bool := t.element?.isSome

def Ty.className? : Ty → Option Name
  | .object name => some name
  | _ => none

inductive BinOp where
  | and
  | less
  | add
  | sub
  | mul
  deriving DecidableEq, Repr

def BinOp.all : List BinOp := [.and, .less, .add, .sub, .mul]

def BinOp.sign : BinOp → String
  | .and => "&&"
  | .less => "<"
  | .add => "+"
  | .sub => "-"
  | .mul => "*"

def BinOp.operandTy : BinOp → Ty
  | .and => .boolean
  | _ => .int

def BinOp.resultTy : BinOp → Ty
  | .and | .less => .boolean
  | _ => .int

mutual

inductive Expr (ν : Type) where
  | node (line : Nat) (note : ν) (form : ExprForm ν)

inductive ExprForm (ν : Type) where
  | binary (op : BinOp) (lhs rhs : Expr ν)
  | lookup (array index : Expr ν)
  | length (array : Expr ν)
  | send (receiver : Expr ν) (method : Name) (args : List (Expr ν))
  | int (value : Int32)
  | tt
  | ff
  | name (name : Name)
  | this
  | newIntArray (size : Expr ν)
  | newBooleanArray (size : Expr ν)
  | newObject (cls : Name)
  | not (operand : Expr ν)
  | bracket (inner : Expr ν)

end

namespace Expr
variable {ν : Type}

def line : Expr ν → Nat
  | .node line _ _ => line

def note : Expr ν → ν
  | .node _ note _ => note

def form : Expr ν → ExprForm ν
  | .node _ _ form => form

end Expr

/-- Name of the kind of an expression, as messages call it. -/
def ExprForm.kind {ν : Type} : ExprForm ν → String
  | .binary .. => "Binary"
  | .lookup .. => "ArrayLookup"
  | .length _ => "ArrayLength"
  | .send .. => "MessageSend"
  | .int _ => "IntLiteral"
  | .tt => "True"
  | .ff => "False"
  | .name _ => "Identifier"
  | .this => "This"
  | .newIntArray _ => "NewIntArray"
  | .newBooleanArray _ => "NewBooleanArray"
  | .newObject _ => "NewObject"
  | .not _ => "Not"
  | .bracket _ => "Bracket"

def Expr.kind {ν : Type} (e : Expr ν) : String := e.form.kind

/-- The expressions directly inside, in source order. -/
def ExprForm.operands {ν : Type} : ExprForm ν → List (Expr ν)
  | .binary _ lhs rhs => [lhs, rhs]
  | .lookup array index => [array, index]
  | .send receiver _ args => receiver :: args
  | .length e | .newIntArray e | .newBooleanArray e | .not e | .bracket e => [e]
  | .int _ | .tt | .ff | .name _ | .this | .newObject _ => []

section Map
variable {ν μ : Type} (f : ν → μ)

mutual

def Expr.map : Expr ν → Expr μ
  | .node line note form => .node line (f note) (form.map)

def ExprForm.map : ExprForm ν → ExprForm μ
  | .binary op a b => .binary op a.map b.map
  | .lookup a i => .lookup a.map i.map
  | .length a => .length a.map
  | .send r m args => .send r.map m (mapArgs args)
  | .int n => .int n
  | .tt => .tt
  | .ff => .ff
  | .name x => .name x
  | .this => .this
  | .newIntArray n => .newIntArray n.map
  | .newBooleanArray n => .newBooleanArray n.map
  | .newObject c => .newObject c
  | .not e => .not e.map
  | .bracket e => .bracket e.map

def mapArgs : List (Expr ν) → List (Expr μ)
  | [] => []
  | e :: es => e.map :: mapArgs es

end

end Map

inductive Stmt (ν τ : Type) where
  | block (line : Nat) (body : List (Stmt ν τ))
  | assign (line : Nat) (target : Name) (note : τ) (value : Expr ν)
  | arrayAssign (line : Nat) (target : Name) (note : τ) (index value : Expr ν)
  | ifElse (line : Nat) (cond : Expr ν) (yes no : Stmt ν τ)
  | while (line : Nat) (cond : Expr ν) (body : Stmt ν τ)
  | print (line : Nat) (value : Expr ν)

def Stmt.line {ν τ : Type} : Stmt ν τ → Nat
  | .block line _ | .assign line .. | .arrayAssign line .. | .ifElse line .. | .while line ..
  | .print line _ => line

section MapStmt
variable {ν μ τ σ : Type} (f : ν → μ) (g : τ → σ)

mutual

def Stmt.map : Stmt ν τ → Stmt μ σ
  | .block line body => .block line (mapBody body)
  | .assign line x note e => .assign line x (g note) (e.map f)
  | .arrayAssign line x note i e => .arrayAssign line x (g note) (i.map f) (e.map f)
  | .ifElse line c s t => .ifElse line (c.map f) s.map t.map
  | .while line c s => .while line (c.map f) s.map
  | .print line e => .print line (e.map f)

def mapBody : List (Stmt ν τ) → List (Stmt μ σ)
  | [] => []
  | s :: ss => s.map :: mapBody ss

end

end MapStmt

/-- What the nodes of a program carry. -/
structure Notes where
  expr : Type
  target : Type
  cls : Type
  method : Type

/-- A program as it was read. -/
abbrev Notes.bare : Notes := ⟨Unit, Unit, Unit, Unit⟩

/-- Declaration of a field, a parameter or a local variable. -/
structure VarDecl where
  line : Nat
  ty : Ty
  name : Name
  deriving DecidableEq, Repr

structure MethodDecl (N : Notes) where
  line : Nat
  note : N.method
  returnTy : Ty
  name : Name
  params : List VarDecl
  vars : List VarDecl
  body : List (Stmt N.expr N.target)
  result : Expr N.expr

structure ClassDecl (N : Notes) where
  line : Nat
  note : N.cls
  name : Name
  superclass : Option Name
  fields : List VarDecl
  methods : List (MethodDecl N)

/-- The class of `public static void main(String[] param)`: no fields, no methods. -/
structure MainClass (N : Notes) where
  line : Nat
  name : Name
  param : Name
  vars : List VarDecl
  body : List (Stmt N.expr N.target)

structure Program (N : Notes) where
  main : MainClass N
  classes : List (ClassDecl N)

/-- The main class counts. -/
def Program.classCount {N : Notes} (p : Program N) : Nat := p.classes.length + 1

/-- A value and the line it stands at. -/
structure Located (α : Type) where
  line : Nat
  value : α

namespace Located
variable {α β : Type}

def moveTo (line : Nat) (x : Located α) : Located α := { x with line }

def map (f : α → β) (x : Located α) : Located β := ⟨x.line, f x.value⟩

/-- Lines do not take part in equality. -/
instance [BEq α] : BEq (Located α) := ⟨fun x y => x.value == y.value⟩

def text [ToString α] (x : Located α) : String := s!"{x.value} at line {x.line}"

end Located

section Alike
variable {ν μ τ σ : Type}

mutual

def Expr.alike : Expr ν → Expr μ → Bool
  | .node _ _ f, .node _ _ g => f.alike g

def ExprForm.alike : ExprForm ν → ExprForm μ → Bool
  | .binary op a b, .binary op' a' b' => op == op' && a.alike a' && b.alike b'
  | .lookup a i, .lookup a' i' => a.alike a' && i.alike i'
  | .length a, .length a' => a.alike a'
  | .send r m args, .send r' m' args' => r.alike r' && m == m' && argsAlike args args'
  | .int n, .int n' => n == n'
  | .tt, .tt | .ff, .ff | .this, .this => true
  | .name x, .name x' => x == x'
  | .newIntArray n, .newIntArray n' => n.alike n'
  | .newBooleanArray n, .newBooleanArray n' => n.alike n'
  | .newObject c, .newObject c' => c == c'
  | .not e, .not e' => e.alike e'
  | .bracket e, .bracket e' => e.alike e'
  | _, _ => false

def argsAlike : List (Expr ν) → List (Expr μ) → Bool
  | [], [] => true
  | a :: as, b :: bs => a.alike b && argsAlike as bs
  | _, _ => false

end

mutual

def Stmt.alike : Stmt ν τ → Stmt μ σ → Bool
  | .block _ b, .block _ b' => bodyAlike b b'
  | .assign _ x _ e, .assign _ x' _ e' => x == x' && e.alike e'
  | .arrayAssign _ x _ i e, .arrayAssign _ x' _ i' e' => x == x' && i.alike i' && e.alike e'
  | .ifElse _ c s t, .ifElse _ c' s' t' => c.alike c' && s.alike s' && t.alike t'
  | .while _ c s, .while _ c' s' => c.alike c' && s.alike s'
  | .print _ e, .print _ e' => e.alike e'
  | _, _ => false

def bodyAlike : List (Stmt ν τ) → List (Stmt μ σ) → Bool
  | [], [] => true
  | s :: ss, t :: ts => s.alike t && bodyAlike ss ts
  | _, _ => false

end

def VarDecl.alike (v w : VarDecl) : Bool := v.ty == w.ty && v.name == w.name

def allAlike {α β : Type} (alike : α → β → Bool) : List α → List β → Bool
  | [], [] => true
  | a :: as, b :: bs => alike a b && allAlike alike as bs
  | _, _ => false

variable {N M : Notes}

def MethodDecl.alike (m : MethodDecl N) (n : MethodDecl M) : Bool :=
  m.returnTy == n.returnTy && m.name == n.name && allAlike VarDecl.alike m.params n.params &&
    allAlike VarDecl.alike m.vars n.vars && bodyAlike m.body n.body && m.result.alike n.result

def ClassDecl.alike (c : ClassDecl N) (d : ClassDecl M) : Bool :=
  c.name == d.name && c.superclass == d.superclass &&
    allAlike VarDecl.alike c.fields d.fields && allAlike MethodDecl.alike c.methods d.methods

def MainClass.alike (c : MainClass N) (d : MainClass M) : Bool :=
  c.name == d.name && c.param == d.param && allAlike VarDecl.alike c.vars d.vars &&
    bodyAlike c.body d.body

def Program.alike (p : Program N) (q : Program M) : Bool :=
  p.main.alike q.main && allAlike ClassDecl.alike p.classes q.classes

end Alike

end MiniJava
