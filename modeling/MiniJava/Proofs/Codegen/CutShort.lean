import MiniJava.Codegen.Damage
import MiniJava.Codegen.Function
import MiniJava.Proofs.Codegen.Emit
import MiniJava.Proofs.Renoted

/-!
# Code generation that breaks off

Where notes, slots or offsets are missing, a step of code generation writes what it would write if
nothing were missing, or it stops behind a front part of that. The errors it may stop with are left
open; they are those that what is missing accounts for.
-/
namespace MiniJava.Codegen

open IR

section Steps
variable {α β : Type} {may : CodegenError → Prop}

/-- From every cursor the first step does what the second one does, or it stops with an error that
may arise, behind code with which the second one begins. -/
def CutShort (may : CodegenError → Prop) (y x : Gen α) : Prop :=
  ∀ k, y k = x k ∨ ∃ e, (y k).result = .error e ∧ may e ∧ (y k).code <+: (x k).code

namespace CutShort

theorem refl (x : Gen α) : CutShort may x x := fun _ => Or.inl rfl

theorem stop {e : CodegenError} (h : may e) (x : Gen α) : CutShort may (fail e) x :=
  fun _ => Or.inr ⟨e, rfl, h, List.nil_prefix⟩

theorem of_error {x : Gen α} {f : α → Gen β} {k : Cursor} {e : CodegenError}
    (h : (x k).result = .error e) : (x >>= f) k = ⟨.error e, (x k).code, (x k).cursor⟩ := by
  change Gen.andThen x f k = _
  simp only [Gen.andThen, h]

theorem code_prefix_bind (x : Gen α) (f : α → Gen β) (k : Cursor) :
    (x k).code <+: ((x >>= f) k).code := by
  cases h : (x k).result with
  | ok a =>
    rw [bind_eq h]
    exact List.prefix_append _ _
  | error e =>
    have stopped : ((x >>= f) k).code = (x k).code := congrArg Emitted.code (of_error h)
    exact ⟨[], (List.append_nil _).trans stopped.symm⟩

theorem bind {y x : Gen α} {g f : α → Gen β} (h : CutShort may y x)
    (next : ∀ a, CutShort may (g a) (f a)) : CutShort may (y >>= g) (x >>= f) := by
  intro k
  rcases h k with same | ⟨e, stopped, he, front⟩
  · cases result : (x k).result with
    | error e =>
      left
      rw [of_error result, of_error (same ▸ result), same]
    | ok a =>
      have result' : (y k).result = .ok a := same ▸ result
      rw [bind_eq result, bind_eq result', same]
      rcases next a (x k).cursor with same' | ⟨e, stopped, he, front⟩
      · left
        rw [same']
      · exact Or.inr ⟨e, stopped, he, (List.prefix_append_right_inj _).mpr front⟩
  · right
    rw [of_error stopped]
    exact ⟨e, rfl, he, front.trans (code_prefix_bind x f k)⟩

/-- The same step, and then less. -/
theorem then_less (x : Gen α) {g f : α → Gen β} (next : ∀ a, CutShort may (g a) (f a)) :
    CutShort may (x >>= g) (x >>= f) := (refl x).bind next

theorem ite {p : Prop} [Decidable p] {y x y' x' : Gen α} (h : CutShort may y x)
    (h' : CutShort may y' x') : CutShort may (if p then y else y') (if p then x else x') := by
  split
  · exact h
  · exact h'

end CutShort

end Steps

/-- What may be left of the note of an expression, where `may` accounts for what is lost. -/
inductive NoteLeft (may : CodegenError → Prop) (e : Expr Note) : Note → Prop
  | kept : NoteLeft may e e.note
  | removed : may (.missingAnalysis e.kind e.line) → NoteLeft may e none
  | stripped {info : ExprInfo} : e.note = some info → may (.missingResolution e.kind e.line) →
      NoteLeft may e (some { info with ref := none })

def TargetLeft (may : CodegenError → Prop) (x : Located Name) (note note' : Target) : Prop :=
  note' = note ∨ note' = none ∧ may (.missingTarget x.value x.line)

/-- The errors that arise from slots and offsets that are missing in a table. -/
structure Damage.Accounts (d : Damage) (t : ClassTable) (may : CodegenError → Prop) : Prop where
  offset : ∀ r f, t.field? r = some f → d.offset (t.nameOf r.cls) f.name = true →
    may (.missingFieldOffset f.name)
  slot : ∀ r m, t.method? r = some m → d.slot (t.nameOf r.cls) m.name = true →
    may (.missingSlot m.name)

namespace Damage
variable (d : Damage) (t : ClassTable)

def field (cls : Name) (f : Field) : Field :=
  if d.offset cls f.name then { f with offset := none } else f

def methodIn (cls : Name) (m : Method) : Method :=
  if d.slot cls m.name then { m with slotOffset := none } else m

/-- The environment of a body in the damaged table. -/
def env (c : Env) : Env := { c with table := d.table c.table }

theorem get?_table (c : ClassId) : (d.table t).get? c = (t.get? c).map d.members :=
  Array.getElem?_map

theorem nameOf_table (c : ClassId) : (d.table t).nameOf c = t.nameOf c := by
  rw [ClassTable.nameOf, get?_table, ClassTable.nameOf]
  cases t.get? c <;> rfl

theorem field?_table (r : FieldRef) :
    (d.table t).field? r = (t.field? r).map (d.field (t.nameOf r.cls)) := by
  rw [ClassTable.field?, ClassTable.fields, get?_table, ClassTable.field?, ClassTable.fields,
    ClassTable.nameOf]
  cases t.get? r.cls with
  | none => rfl
  | some c => exact List.getElem?_map

theorem method?_table (r : MethodRef) :
    (d.table t).method? r = (t.method? r).map (d.methodIn (t.nameOf r.cls)) := by
  rw [ClassTable.method?, ClassTable.methods, get?_table, ClassTable.method?, ClassTable.methods,
    ClassTable.nameOf]
  cases t.get? r.cls with
  | none => rfl
  | some c => exact List.getElem?_map

theorem field_ty (cls : Name) (f : Field) : (d.field cls f).ty = f.ty := by
  unfold field
  split <;> rfl

end Damage

section Memory
variable {d : Damage} {c : Env} {may : CodegenError → Prop}

theorem varTy_env (v : VarRef) : varTy (d.env c) v = varTy c v := by
  cases v with
  | loc i => rfl
  | field r =>
    rw [varTy, varTy, Damage.env, d.field?_table]
    cases c.table.field? r with
    | none => rfl
    | some f => exact congrArg (ofOption _ ∘ some) (d.field_ty _ f)

variable (accounts : d.Accounts c.table may)
include accounts

theorem varPointer_cutShort (v : VarRef) :
    CutShort may (varPointer (d.env c) v) (varPointer c v) := by
  cases v with
  | loc i => exact .refl _
  | field r =>
    rw [varPointer, varPointer, Damage.env, d.field?_table]
    cases hf : c.table.field? r with
    | none => exact .refl _
    | some f =>
      simp only [Option.map_some, ofOption_some, of_bind]
      unfold Damage.field
      split
      · rename_i cleared
        exact .stop (accounts.offset r f hf cleared) _
      · exact .refl _

theorem loadVar_cutShort (v : VarRef) : CutShort may (loadVar (d.env c) v) (loadVar c v) := by
  rw [loadVar, varTy_env]
  exact .then_less _ fun _ => (varPointer_cutShort accounts v).bind fun _ => .refl _

theorem storeVar_cutShort (v : VarRef) (value : Value) :
    CutShort may (storeVar (d.env c) v value) (storeVar c v value) := by
  rw [storeVar, varTy_env]
  exact .then_less _ fun _ => (varPointer_cutShort accounts v).bind fun _ => .refl _

end Memory

section Asked
variable {β : Type} {may : CodegenError → Prop} {e : Expr Note} {note' : Note}
  {g f : ExprInfo → Gen β}

/-- Where the reference is asked for, a note without one is as bad as none. -/
theorem NoteLeft.ask (left : NoteLeft may e note') (next : ∀ info, CutShort may (g info) (f info))
    (lost : ∀ info : ExprInfo, g { info with ref := none } =
      fail (.missingResolution e.kind e.line)) :
    CutShort may (ofOption (.missingAnalysis e.kind e.line) note' >>= g)
      (ofOption (.missingAnalysis e.kind e.line) e.note >>= f) := by
  cases left with
  | kept => exact .then_less _ next
  | removed h => exact (CutShort.stop h _).bind fun _ => next _
  | stripped hi h =>
    rw [hi, ofOption_some, ofOption_some, of_bind, of_bind, lost]
    exact .stop h _

/-- Of the note of an array only the type counts. -/
theorem NoteLeft.askTy (left : NoteLeft may e note')
    (next : ∀ info info' : ExprInfo, info'.ty = info.ty → CutShort may (g info') (f info)) :
    CutShort may (ofOption (.missingAnalysis e.kind e.line) note' >>= g)
      (ofOption (.missingAnalysis e.kind e.line) e.note >>= f) := by
  cases left with
  | kept => exact .then_less _ fun info => next info info rfl
  | removed h => exact (CutShort.stop h _).bind fun info => next info info rfl
  | stripped hi _ =>
    rw [hi, ofOption_some, ofOption_some, of_bind, of_bind]
    exact next _ _ rfl

end Asked

theorem Renoted.note {R : Expr Note → Note → Prop} {e e' : Expr Note} (h : Expr.Renoted R e e') :
    R e e'.note := by
  cases h with
  | node hn _ => exact hn

/-- Only the notes may differ. -/
theorem Renoted.line {R : Expr Note → Note → Prop} {e e' : Expr Note} (h : Expr.Renoted R e e') :
    e'.line = e.line := by
  cases h
  rfl

theorem Renoted.kind {R : Expr Note → Note → Prop} {e e' : Expr Note} (h : Expr.Renoted R e e') :
    e'.kind = e.kind := by
  cases h with
  | node _ hf => cases hf <;> rfl

theorem infoOf_eq_of_renoted {R : Expr Note → Note → Prop} {e e' : Expr Note}
    (h : Expr.Renoted R e e') :
    infoOf e' = ofOption (.missingAnalysis e.kind e.line) e'.note := by
  rw [infoOf, Renoted.kind h, Renoted.line h]

section Expressions
variable {d : Damage} {c : Env} {may : CodegenError → Prop}

theorem genAnd_cutShort {a b a' b' : Gen Value} (ha : CutShort may a' a) (hb : CutShort may b' b) :
    CutShort may (genAnd a' b') (genAnd a b) :=
  ha.bind fun _ => .then_less _ fun _ => .then_less _ fun _ => .then_less _ fun _ =>
    .then_less _ fun _ => hb.bind fun _ => .refl _

mutual

theorem genExpr_cutShort (accounts : d.Accounts c.table may) :
    ∀ {e e' : Expr Note}, Expr.Renoted (NoteLeft may) e e' →
      CutShort may (genExpr (d.env c) e') (genExpr c e)
  | .node _ _ _, .node _ _ _, .node left form => by
    rw [genExpr, genExpr]
    exact genForm_cutShort accounts left form

theorem genForm_cutShort (accounts : d.Accounts c.table may) {line : Nat} {note note' : Note} :
    ∀ {form form' : ExprForm Note}, NoteLeft may (.node line note form) note' →
      ExprForm.Renoted (NoteLeft may) form form' →
        CutShort may (genForm (d.env c) line note' form') (genForm c line note form)
  | _, _, _, .binary op ha hb => by
    rw [genForm, genForm]
    exact .ite (genAnd_cutShort (genExpr_cutShort accounts ha) (genExpr_cutShort accounts hb))
      ((genExpr_cutShort accounts ha).bind fun _ => (genExpr_cutShort accounts hb).bind fun _ =>
        .refl _)
  | _, _, _, .not he => by
    rw [genForm, genForm]
    exact (genExpr_cutShort accounts he).bind fun _ => .refl _
  | _, _, _, .lookup ha hi => by
    rw [genForm, genForm, infoOf_eq_of_renoted ha]
    refine (Renoted.note ha).askTy fun info info' same => ?_
    rw [same]
    exact (genExpr_cutShort accounts ha).bind fun _ =>
      (genExpr_cutShort accounts hi).bind fun _ => .refl _
  | _, _, _, .length ha => by
    rw [genForm, genForm, infoOf_eq_of_renoted ha]
    refine (Renoted.note ha).askTy fun info info' same => ?_
    rw [same]
    exact (genExpr_cutShort accounts ha).bind fun _ => .refl _
  | .send r m args, .send r' _ args', left, .send _ hr hargs => by
    rw [genForm, genForm]
    refine left.ask (fun info => .then_less _ fun r => ?_) fun _ => rfl
    rw [Damage.env, d.method?_table]
    cases hm : c.table.method? r with
    | none => exact .refl _
    | some m =>
      simp only [Option.map_some, ofOption_some, of_bind]
      unfold Damage.methodIn
      split
      · rename_i cleared
        exact .stop (accounts.slot r m hm cleared) _
      · exact .then_less _ fun _ => (genExpr_cutShort accounts hr).bind fun _ =>
          (genArgs_cutShort accounts hargs _).bind fun _ => .refl _
  | _, _, _, .int n => by
    rw [genForm, genForm]
    exact .refl _
  | _, _, _, .tt => by
    rw [genForm, genForm]
    exact .refl _
  | _, _, _, .ff => by
    rw [genForm, genForm]
    exact .refl _
  | .name x, .name _, left, .name _ => by
    rw [genForm, genForm]
    exact left.ask (fun info => .then_less _ fun v => loadVar_cutShort accounts v) fun _ => rfl
  | _, _, _, .this => by
    rw [genForm, genForm]
    exact .refl _
  | _, _, _, .newIntArray hn => by
    rw [genForm, genForm]
    exact (genExpr_cutShort accounts hn).bind fun _ => .refl _
  | _, _, _, .newBooleanArray hn => by
    rw [genForm, genForm]
    exact (genExpr_cutShort accounts hn).bind fun _ => .refl _
  | .newObject x, .newObject _, left, .newObject _ => by
    rw [genForm, genForm]
    exact left.ask (fun info => .refl _) fun _ => rfl
  | _, _, _, .bracket he => by
    rw [genForm, genForm]
    exact genExpr_cutShort accounts he

theorem genArgs_cutShort (accounts : d.Accounts c.table may) :
    ∀ {es es' : List (Expr Note)}, ArgsRenoted (NoteLeft may) es es' → ∀ tys,
      CutShort may (genArgs (d.env c) tys es') (genArgs c tys es)
  | _, _, .nil, tys => by
    rw [genArgs, genArgs]
    exact .refl _
  | _, _, .cons he hes, [] => by
    rw [genArgs, genArgs]
    exact .refl _
  | _, _, .cons he hes, ty :: tys => by
    rw [genArgs, genArgs]
    exact (genExpr_cutShort accounts he).bind fun _ =>
      (genArgs_cutShort accounts hes tys).bind fun _ => .refl _

end

end Expressions

section Statements
variable {d : Damage} {c : Env} {may : CodegenError → Prop}

theorem TargetLeft.ask {β : Type} {x : Name} {line : Nat} {note note' : Target}
    (left : TargetLeft may ⟨line, x⟩ note note') {g f : VarRef → Gen β}
    (next : ∀ v, CutShort may (g v) (f v)) :
    CutShort may (ofOption (.missingTarget x line) note' >>= g)
      (ofOption (.missingTarget x line) note >>= f) := by
  rcases left with rfl | ⟨rfl, lost⟩
  · exact .then_less _ next
  · exact (CutShort.stop lost _).bind next

theorem genIf_cutShort {cond cond' : Gen Value} {yes no yes' no' : Gen Unit}
    (hcond : CutShort may cond' cond) (hyes : CutShort may yes' yes) (hno : CutShort may no' no) :
    CutShort may (genIf cond' yes' no') (genIf cond yes no) :=
  hcond.bind fun _ => .then_less _ fun _ => .then_less _ fun _ => .then_less _ fun _ =>
    hyes.bind fun _ => .then_less _ fun _ => .then_less _ fun _ => hno.bind fun _ => .refl _

theorem genWhile_cutShort {cond cond' : Gen Value} {body body' : Gen Unit}
    (hcond : CutShort may cond' cond) (hbody : CutShort may body' body) :
    CutShort may (genWhile cond' body') (genWhile cond body) :=
  .then_less _ fun _ => .then_less _ fun _ => .then_less _ fun _ => hcond.bind fun _ =>
    .then_less _ fun _ => .then_less _ fun _ => hbody.bind fun _ => .refl _

mutual

theorem genStmt_cutShort (accounts : d.Accounts c.table may) :
    ∀ {s s' : Stmt Note Target}, Stmt.Renoted (NoteLeft may) (TargetLeft may) s s' →
      CutShort may (genStmt (d.env c) s') (genStmt c s)
  | _, _, .block _ hbody => by
    rw [genStmt, genStmt]
    exact genStmts_cutShort accounts hbody
  | _, _, .assign left he => by
    rw [genStmt, genStmt]
    exact (genExpr_cutShort accounts he).bind fun _ =>
      left.ask fun v => storeVar_cutShort accounts v _
  | _, _, .arrayAssign left hi he => by
    rw [genStmt, genStmt]
    refine left.ask fun v => ?_
    rw [varTy_env]
    exact .then_less _ fun _ => (loadVar_cutShort accounts v).bind fun _ =>
      (genExpr_cutShort accounts hi).bind fun _ => (genExpr_cutShort accounts he).bind fun _ =>
      .refl _
  | _, _, .ifElse _ he hyes hno => by
    rw [genStmt, genStmt]
    exact genIf_cutShort (genExpr_cutShort accounts he) (genStmt_cutShort accounts hyes)
      (genStmt_cutShort accounts hno)
  | _, _, .while _ he hbody => by
    rw [genStmt, genStmt]
    exact genWhile_cutShort (genExpr_cutShort accounts he) (genStmt_cutShort accounts hbody)
  | _, _, .print _ he => by
    rw [genStmt, genStmt]
    exact (genExpr_cutShort accounts he).bind fun _ => .refl _

theorem genStmts_cutShort (accounts : d.Accounts c.table may) :
    ∀ {body body' : List (Stmt Note Target)},
      BodyRenoted (NoteLeft may) (TargetLeft may) body body' →
        CutShort may (genStmts (d.env c) body') (genStmts c body)
  | _, _, .nil => by
    rw [genStmts, genStmts]
    exact .refl _
  | _, _, .cons hs hbody => by
    rw [genStmts, genStmts]
    exact (genStmt_cutShort accounts hs).bind fun _ => genStmts_cutShort accounts hbody

end

/-- Slots are reserved from the locals alone. -/
theorem genSlots_env (d : Damage) (c : Env) (params : List Local) :
    genSlots (d.env c) params = genSlots c params := by
  have allocates : ∀ xs, allocate (d.env c) xs = allocate c xs := by
    intro xs
    induction xs with
    | nil => rfl
    | cons x xs ih => rw [allocate, allocate, ih]; rfl
  have stores : ∀ xs, storeParams (d.env c) xs = storeParams c xs := by
    intro xs
    induction xs with
    | nil => rfl
    | cons x xs ih => rw [storeParams, storeParams, ih]; rfl
  rw [genSlots, genSlots, stores, allocates]
  rfl

theorem mainBody_cutShort (accounts : d.Accounts c.table may) {body body' : List (Stmt Note Target)}
    (renoted : BodyRenoted (NoteLeft may) (TargetLeft may) body body') :
    CutShort may (mainBody (d.env c) body') (mainBody c body) := by
  rw [mainBody, mainBody, genSlots_env]
  exact .then_less _ fun _ => (genStmts_cutShort accounts renoted).bind fun _ => .refl _

theorem methodBody_cutShort (accounts : d.Accounts c.table may) (m : Method)
    {body body' : List (Stmt Note Target)} {result result' : Expr Note}
    (renoted : BodyRenoted (NoteLeft may) (TargetLeft may) body body')
    (renoted' : Expr.Renoted (NoteLeft may) result result') :
    CutShort may (methodBody (d.env c) m body' result') (methodBody c m body result) := by
  rw [methodBody, methodBody, genSlots_env]
  exact .then_less _ fun _ => (genStmts_cutShort accounts renoted).bind fun _ =>
    (genExpr_cutShort accounts renoted').bind fun _ => .refl _

end Statements

end MiniJava.Codegen
