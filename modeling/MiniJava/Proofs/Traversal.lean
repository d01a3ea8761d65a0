import MiniJava.Proofs.Findings

/-!
# What the body pass is put together from

The body pass looks things up in the class table, sets marks, asks whether the report is full, and
does one after the other, at every statement, method and class of the program. A property of
computations that holds of the single steps, and is kept where steps are bound, holds of the pass.
-/
namespace MiniJava.Check

/-- A property of the steps of the body pass, and of what is made of computations that have it. -/
structure Passes (P : {α : Type} → CheckM α → Prop) : Prop where
  pure : ∀ {α : Type} (a : α), P (Pure.pure a)
  bind : ∀ {α β : Type} {x : CheckM α} {f : α → CheckM β}, P x → (∀ a, P (f a)) → P (x >>= f)
  ifFull : ∀ {α : Type} {x : CheckM α} (a : α), P x → P (do if ← isFull then return a else x)
  mark : ∀ p v, P (mark p v)
  typeIn : ∀ p e, P (typeIn p e)
  cond : ∀ p line e, P (checkCond p line e)
  resolve : ∀ p line x, P (take fun t => (Scope.mk t p).resolve line x)
  stored : ∀ line ty value, P (take fun t => checkStored t line ty value)
  arrayAssign : ∀ p line x index value,
    P (take fun t => checkArrayAssign ⟨t, p⟩ line x index value)
  printed : ∀ line value, P (take fun _ => expect line value .int .printRequiresInt)
  result : ∀ p ref e, P (checkResult p ref e)

namespace Passes
variable {P : {α : Type} → CheckM α → Prop} (h : Passes P)
include h

theorem map {α β : Type} {x : CheckM α} (hx : P x) (f : α → β) : P (do let a ← x; return f a) :=
  h.bind hx fun a => h.pure (f a)

theorem assign (p : Place) (line : Nat) (x : Name) (value : Expr Unit) :
    P (checkAssign p line x value) := by
  refine h.bind (h.typeIn p value) fun value => h.bind (h.resolve p line x) fun target => ?_
  cases target with
  | none => exact h.pure _
  | some target =>
    exact h.bind (h.stored line target.2 value) fun _ => h.map (h.mark p target.1) fun _ => _

mutual

theorem stmt (p : Place) : ∀ s : Stmt Unit Unit, P (checkStmt p s)
  | .block line body => by
    rw [checkStmt]
    exact h.map (stmts p body) _
  | .assign line x _ value => by
    rw [checkStmt]
    exact h.map (h.assign p line x value) _
  | .arrayAssign line x _ index value => by
    rw [checkStmt]
    exact h.map (h.arrayAssign p line x index value) _
  | .ifElse line cond yes no => by
    rw [checkStmt]
    exact h.bind (h.cond p line cond) fun _ => h.bind (stmt p yes) fun _ => h.map (stmt p no) _
  | .while line cond body => by
    rw [checkStmt]
    exact h.bind (h.cond p line cond) fun _ => h.map (stmt p body) _
  | .print line value => by
    rw [checkStmt]
    exact h.bind (h.typeIn p value) fun value => h.map (h.printed line value) _

theorem stmts (p : Place) : ∀ ss : List (Stmt Unit Unit), P (checkStmts p ss)
  | [] => by
    rw [checkStmts]
    exact h.pure _
  | s :: ss => by
    rw [checkStmts]
    exact h.ifFull _ (h.bind (stmt p s) fun _ => h.map (stmts p ss) _)

end

theorem method (cls : ClassId) (m : MethodDecl .registered) : P (checkMethod cls m) := by
  rw [checkMethod]
  refine h.ifFull _ ?_
  split
  · exact h.pure _
  · refine h.bind (h.stmts _ m.body) fun body => ?_
    let finish (result : Expr Note) : MethodDecl .checked :=
      ⟨m.line, m.note, m.returnTy, m.name, m.params, m.vars, body, result⟩
    exact h.ifFull (finish (blank m.result)) (h.map (h.result _ _ m.result) finish)

theorem methodBodies (cls : ClassId) (ms : List (MethodDecl .registered)) :
    P (checkMethodBodies cls ms) := by
  induction ms with
  | nil => exact h.pure _
  | cons m ms ih => exact h.bind (h.method cls m) fun _ => h.map ih _

theorem cls (c : ClassDecl .registered) : P (checkClass c) := by
  rw [checkClass]
  split
  · exact h.pure _
  · exact h.map (h.methodBodies _ c.methods) _

theorem classBodies (cs : List (ClassDecl .registered)) : P (checkClassBodies cs) := by
  induction cs with
  | nil => exact h.pure _
  | cons c cs ih => exact h.bind (h.cls c) fun _ => h.map ih _

theorem bodies (q : Program .registered) : P (bodies q) :=
  h.bind (h.stmts _ q.main.body) fun _ => h.map (h.classBodies q.classes) _

end Passes

end MiniJava.Check
