import MiniJava.Codegen.Generate
import MiniJava.Proofs.IR.Blocks

/-!
# Properties of emitted code that compose

The code of a body is put together from single instructions and from five constructs that need
blocks of their own. A property that holds of the instructions, and of every construct if it holds of
what stands inside, holds of the code of every expression and of every statement.
-/
namespace MiniJava.Codegen

open IR

structure Compositional (P : {α : Type} → Gen α → Prop) : Prop where
  of : ∀ {α : Type} (a : α), P (Gen.of a)
  fail : ∀ {α : Type} (e : CodegenError), P (fail e : Gen α)
  bind : ∀ {α β : Type} {x : Gen α} {f : α → Gen β}, P x → (∀ a, P (f a)) → P (x >>= f)
  emit : ∀ i : Instr, i.ends = false → i.phi? = none → P (emit i)
  emitValue : ∀ rhs : Rhs, rhs.phi? = none → P (emitValue rhs)
  newArray : ∀ (ty : Ty) (size : Value), P (newArray ty size)
  elementPointer : ∀ (ty : Ty) (array index : Value), P (elementPointer ty array index)
  genAnd : ∀ {a b : Gen Value}, P a → P b → P (genAnd a b)
  genIf : ∀ {cond : Gen Value} {yes no : Gen Unit}, P cond → P yes → P no → P (genIf cond yes no)
  genWhile : ∀ {cond : Gen Value} {body : Gen Unit}, P cond → P body → P (genWhile cond body)

theorem arithOf_phi? (op : BinOp) (a b : Value) : (arithOf op a b).phi? = none := by
  cases op <;> rfl

namespace Compositional
variable {P : {α : Type} → Gen α → Prop}

theorem of_ite {α : Type} {p : Prop} [Decidable p] {x y : Gen α} (hx : P x) (hy : P y) :
    P (if p then x else y) := by
  split
  · exact hx
  · exact hy

variable (h : Compositional P)
include h

theorem ofOption {α : Type} (e : CodegenError) (o : Option α) : P (ofOption e o) := by
  cases o with
  | none => exact h.fail e
  | some a => exact h.of a

section Memory
variable (c : Env)

theorem varTy (v : VarRef) : P (varTy c v) := by
  cases v with
  | loc i => exact h.ofOption _ _
  | field r => exact h.ofOption _ _

theorem varPointer (v : VarRef) : P (varPointer c v) := by
  cases v with
  | loc i => exact h.ofOption _ _
  | field r =>
    exact h.bind (h.ofOption _ _) fun _ => h.bind (h.ofOption _ _) fun _ =>
      h.bind (h.emitValue _ rfl) fun _ => h.emitValue _ rfl

theorem loadVar (v : VarRef) : P (loadVar c v) :=
  h.bind (h.varTy c v) fun _ => h.bind (h.varPointer c v) fun _ => h.emitValue _ rfl

theorem storeVar (v : VarRef) (value : Value) : P (storeVar c v value) :=
  h.bind (h.varTy c v) fun _ => h.bind (h.varPointer c v) fun _ => h.emit _ rfl rfl

end Memory

theorem newObject (l : ClassLayout) : P (newObject l) :=
  h.bind (h.emitValue _ rfl) fun _ => h.bind (h.emitValue _ rfl) fun _ =>
    h.bind (h.emitValue _ rfl) fun _ => h.bind (h.emit _ rfl rfl) fun _ => h.of _

theorem arrayLength (ty : Ty) (array : Value) : P (arrayLength ty array) :=
  of_ite (h.bind (h.of _) fun _ => h.emitValue _ rfl)
    (h.bind (h.emitValue _ rfl) fun _ => h.emitValue _ rfl)

theorem loadElement (ty : Ty) (element : Value) : P (loadElement ty element) :=
  of_ite (h.emitValue _ rfl) (h.bind (h.emitValue _ rfl) fun _ => h.emitValue _ rfl)

theorem storeElement (ty : Ty) (element value : Value) : P (storeElement ty element value) :=
  of_ite (h.emit _ rfl rfl) (h.bind (h.emitValue _ rfl) fun _ => h.emit _ rfl rfl)

theorem invoke (m : Method) (slot : Nat) (receiver : Value) (args : List (IRType × Value)) :
    P (invoke m slot receiver args) :=
  h.bind (h.emitValue _ rfl) fun _ => h.bind (h.emitValue _ rfl) fun _ =>
    h.bind (h.emitValue _ rfl) fun _ => h.bind (h.emitValue _ rfl) fun _ =>
    h.bind (h.emitValue _ rfl) fun _ => h.emitValue _ rfl

section Resolved
variable (e : CodegenError) (info : ExprInfo)

theorem resolvedVar : P (resolvedVar e info) := by
  rw [Codegen.resolvedVar]
  split
  · exact h.of _
  · exact h.fail _

theorem resolvedMethod : P (resolvedMethod e info) := by
  rw [Codegen.resolvedMethod]
  split
  · exact h.of _
  · exact h.fail _

theorem resolvedClass : P (resolvedClass e info) := by
  rw [Codegen.resolvedClass]
  split
  · exact h.of _
  · exact h.fail _

end Resolved

omit h

mutual

theorem genExpr (h : Compositional P) (c : Env) : ∀ e : Expr Note, P (genExpr c e)
  | .node line note form => by
    rw [Codegen.genExpr]
    exact h.genForm c line note form

theorem genForm (h : Compositional P) (c : Env) (line : Nat) (note : Note) :
    ∀ form : ExprForm Note, P (genForm c line note form)
  | .binary op a b => by
    rw [Codegen.genForm]
    exact of_ite (h.genAnd (h.genExpr c a) (h.genExpr c b))
      (h.bind (h.genExpr c a) fun _ => h.bind (h.genExpr c b) fun _ =>
        h.emitValue _ (arithOf_phi? op _ _))
  | .not e => by
    rw [Codegen.genForm]
    exact h.bind (h.genExpr c e) fun _ => h.emitValue _ rfl
  | .lookup a i => by
    rw [Codegen.genForm]
    exact h.bind (h.ofOption _ _) fun _ => h.bind (h.genExpr c a) fun _ =>
      h.bind (h.genExpr c i) fun _ => h.bind (h.elementPointer _ _ _) fun _ => h.loadElement _ _
  | .length a => by
    rw [Codegen.genForm]
    exact h.bind (h.ofOption _ _) fun _ => h.bind (h.genExpr c a) fun _ => h.arrayLength _ _
  | .send r _ args => by
    rw [Codegen.genForm]
    exact h.bind (h.ofOption _ _) fun _ => h.bind (h.resolvedMethod _ _) fun _ =>
      h.bind (h.ofOption _ _) fun _ => h.bind (h.ofOption _ _) fun _ =>
      h.bind (h.genExpr c r) fun _ => h.bind (h.genArgs c args _) fun _ => h.invoke _ _ _ _
  | .int _ => by
    rw [Codegen.genForm]
    exact h.of _
  | .tt => by
    rw [Codegen.genForm]
    exact h.of _
  | .ff => by
    rw [Codegen.genForm]
    exact h.of _
  | .name _ => by
    rw [Codegen.genForm]
    exact h.bind (h.ofOption _ _) fun _ => h.bind (h.resolvedVar _ _) fun _ => h.loadVar c _
  | .this => by
    rw [Codegen.genForm]
    exact h.of _
  | .newIntArray n => by
    rw [Codegen.genForm]
    exact h.bind (h.genExpr c n) fun _ => h.newArray _ _
  | .newBooleanArray n => by
    rw [Codegen.genForm]
    exact h.bind (h.genExpr c n) fun _ => h.newArray _ _
  | .newObject _ => by
    rw [Codegen.genForm]
    exact h.bind (h.ofOption _ _) fun _ => h.bind (h.resolvedClass _ _) fun _ =>
      h.bind (h.ofOption _ _) fun _ => h.newObject _
  | .bracket e => by
    rw [Codegen.genForm]
    exact h.genExpr c e

theorem genArgs (h : Compositional P) (c : Env) :
    ∀ (es : List (Expr Note)) (tys : List Ty), P (genArgs c tys es)
  | [], _ => by
    rw [Codegen.genArgs]
    exact h.of _
  | e :: es, [] => by
    rw [Codegen.genArgs]
    exact h.of _
  | e :: es, ty :: tys => by
    rw [Codegen.genArgs]
    exact h.bind (h.genExpr c e) fun _ => h.bind (h.genArgs c es tys) fun _ => h.of _

end

mutual

theorem genStmt (h : Compositional P) (c : Env) : ∀ st : Stmt Note Target, P (genStmt c st)
  | .block _ body => by
    rw [Codegen.genStmt]
    exact h.genStmts c body
  | .assign _ _ _ e => by
    rw [Codegen.genStmt]
    exact h.bind (h.genExpr c e) fun _ => h.bind (h.ofOption _ _) fun _ => h.storeVar c _ _
  | .arrayAssign _ _ _ i e => by
    rw [Codegen.genStmt]
    exact h.bind (h.ofOption _ _) fun _ => h.bind (h.varTy c _) fun _ =>
      h.bind (h.loadVar c _) fun _ => h.bind (h.genExpr c i) fun _ =>
      h.bind (h.genExpr c e) fun _ => h.bind (h.elementPointer _ _ _) fun _ =>
      h.storeElement _ _ _
  | .ifElse _ e yes no => by
    rw [Codegen.genStmt]
    exact h.genIf (h.genExpr c e) (h.genStmt c yes) (h.genStmt c no)
  | .while _ e body => by
    rw [Codegen.genStmt]
    exact h.genWhile (h.genExpr c e) (h.genStmt c body)
  | .print _ e => by
    rw [Codegen.genStmt]
    exact h.bind (h.genExpr c e) fun _ => h.emit _ rfl rfl

theorem genStmts (h : Compositional P) (c : Env) :
    ∀ body : List (Stmt Note Target), P (genStmts c body)
  | [] => by
    rw [Codegen.genStmts]
    exact h.of _
  | st :: body => by
    rw [Codegen.genStmts]
    exact h.bind (h.genStmt c st) fun _ => h.genStmts c body

end

theorem allocate (h : Compositional P) (c : Env) (xs : List Local) : P (allocate c xs) := by
  induction xs with
  | nil => exact h.of _
  | cons x xs ih => exact h.bind (h.emit _ rfl rfl) fun _ => ih

theorem storeParams (h : Compositional P) (c : Env) (xs : List Local) : P (storeParams c xs) := by
  induction xs with
  | nil => exact h.of _
  | cons x xs ih => exact h.bind (h.emit _ rfl rfl) fun _ => ih

end Compositional

end MiniJava.Codegen
