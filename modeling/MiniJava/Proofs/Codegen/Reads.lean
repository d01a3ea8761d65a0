import MiniJava.Codegen.Generate

/-!
# What code generation reads of a class table

Code is generated from the notes in a program and from the layout. In the class table it looks up
the types and offsets of fields, the methods, the names of classes and the locals of `main`; class
tables that agree about these give the same module.
-/
namespace MiniJava.Codegen

/-- All that is read of a field. -/
def fieldRead (t : ClassTable) (r : FieldRef) : Option (Name × Ty × Option Nat) :=
  (t.field? r).map fun f => (f.name, f.ty, f.offset)

/-- The class tables agree about all that is read. -/
structure ReadAlike (t u : ClassTable) : Prop where
  field : ∀ r, fieldRead u r = fieldRead t r
  method : ∀ r, u.method? r = t.method? r
  name : ∀ c, u.nameOf c = t.nameOf c
  entry : (u.get? 0).bind (·.entry) = (t.get? 0).bind (·.entry)

section Field
variable (c : Env) (r : FieldRef)

theorem varTy_eq_fieldRead :
    varTy c (.field r) = ofOption .dangling ((fieldRead c.table r).map fun f => f.2.1) := by
  rw [varTy, fieldRead, Option.map_map]
  rfl

theorem varPointer_eq_fieldRead : varPointer c (.field r) = (do
    let (name, ty, offset) ← ofOption .dangling (fieldRead c.table r)
    let offset ← ofOption (.missingFieldOffset name) offset
    let address ← emitValue (.address .i8 .this [.int (Layout.headerSize + offset)])
    emitValue (.cast .bitcast .bytes address (.ptr ty.ir))) := by
  rw [varPointer, fieldRead]
  cases c.table.field? r <;> rfl

end Field

section Body
variable {t u : ClassTable} {l : Layout} {scope : String} {locals : List Local}

theorem varTy_congr (h : ReadAlike t u) (v : VarRef) :
    varTy ⟨u, l, scope, locals⟩ v = varTy ⟨t, l, scope, locals⟩ v := by
  cases v with
  | loc i => rfl
  | field r => rw [varTy_eq_fieldRead, varTy_eq_fieldRead, h.field]

theorem varPointer_congr (h : ReadAlike t u) (v : VarRef) :
    varPointer ⟨u, l, scope, locals⟩ v = varPointer ⟨t, l, scope, locals⟩ v := by
  cases v with
  | loc i => rfl
  | field r => rw [varPointer_eq_fieldRead, varPointer_eq_fieldRead, h.field]

theorem loadVar_congr (h : ReadAlike t u) (v : VarRef) :
    loadVar ⟨u, l, scope, locals⟩ v = loadVar ⟨t, l, scope, locals⟩ v := by
  rw [loadVar, varTy_congr h, varPointer_congr h, loadVar]

theorem storeVar_congr (h : ReadAlike t u) (v : VarRef) (value : IR.Value) :
    storeVar ⟨u, l, scope, locals⟩ v value = storeVar ⟨t, l, scope, locals⟩ v value := by
  rw [storeVar, varTy_congr h, varPointer_congr h, storeVar]

mutual

theorem genExpr_congr (h : ReadAlike t u) : ∀ e : Expr Note,
    genExpr ⟨u, l, scope, locals⟩ e = genExpr ⟨t, l, scope, locals⟩ e
  | .node line note form => by
    rw [genExpr, genExpr, genForm_congr h line note form]

theorem genForm_congr (h : ReadAlike t u) (line : Nat) (note : Note) : ∀ form : ExprForm Note,
    genForm ⟨u, l, scope, locals⟩ line note form = genForm ⟨t, l, scope, locals⟩ line note form
  | .binary op a b => by
    simp only [genForm, genExpr_congr h a, genExpr_congr h b]
  | .not e => by
    simp only [genForm, genExpr_congr h e]
  | .lookup a i => by
    simp only [genForm, genExpr_congr h a, genExpr_congr h i]
  | .length a => by
    simp only [genForm, genExpr_congr h a]
  | .send receiver name args => by
    have lists := fun tys => genArgs_congr h tys args
    simp only [genForm, h.method, genExpr_congr h receiver, lists]
  | .int _ => rfl
  | .tt => rfl
  | .ff => rfl
  | .name x => by
    simp only [genForm, loadVar_congr h]
  | .this => rfl
  | .newIntArray n => by
    simp only [genForm, genExpr_congr h n]
  | .newBooleanArray n => by
    simp only [genForm, genExpr_congr h n]
  | .newObject name => by
    simp only [genForm]
  | .bracket e => by
    simp only [genForm, genExpr_congr h e]

theorem genArgs_congr (h : ReadAlike t u) (tys : List Ty) : ∀ args : List (Expr Note),
    genArgs ⟨u, l, scope, locals⟩ tys args = genArgs ⟨t, l, scope, locals⟩ tys args
  | [] => by
    simp only [genArgs]
  | e :: es => by
    cases tys with
    | nil => simp only [genArgs]
    | cons ty tys => simp only [genArgs, genExpr_congr h e, genArgs_congr h tys es]

end

mutual

theorem genStmt_congr (h : ReadAlike t u) : ∀ s : Stmt Note Target,
    genStmt ⟨u, l, scope, locals⟩ s = genStmt ⟨t, l, scope, locals⟩ s
  | .block _ body => by
    rw [genStmt, genStmt, genStmts_congr h body]
  | .assign line x target value => by
    simp only [genStmt, genExpr_congr h, storeVar_congr h]
  | .arrayAssign line x target index value => by
    simp only [genStmt, genExpr_congr h, varTy_congr h, loadVar_congr h]
  | .ifElse _ cond yes no => by
    rw [genStmt, genStmt, genExpr_congr h, genStmt_congr h yes, genStmt_congr h no]
  | .while _ cond body => by
    rw [genStmt, genStmt, genExpr_congr h, genStmt_congr h body]
  | .print _ value => by
    simp only [genStmt, genExpr_congr h]

theorem genStmts_congr (h : ReadAlike t u) : ∀ ss : List (Stmt Note Target),
    genStmts ⟨u, l, scope, locals⟩ ss = genStmts ⟨t, l, scope, locals⟩ ss
  | [] => by
    rw [genStmts, genStmts]
  | s :: ss => by
    rw [genStmts, genStmts, genStmt_congr h s, genStmts_congr h ss]

end

/-- Stack slots are those of the locals, whatever the class table. -/
theorem genSlots_congr (u t : ClassTable) (params : List Local) :
    genSlots ⟨u, l, scope, locals⟩ params = genSlots ⟨t, l, scope, locals⟩ params := by
  have allocate : ∀ xs : List Local,
      allocate ⟨u, l, scope, locals⟩ xs = allocate ⟨t, l, scope, locals⟩ xs := by
    intro xs
    induction xs with
    | nil => rfl
    | cons x xs ih =>
      rw [Codegen.allocate, ih]
      rfl
  have store : ∀ xs : List Local,
      storeParams ⟨u, l, scope, locals⟩ xs = storeParams ⟨t, l, scope, locals⟩ xs := by
    intro xs
    induction xs with
    | nil => rfl
    | cons x xs ih =>
      rw [storeParams, ih]
      rfl
  rw [genSlots, genSlots, allocate, store]

theorem methodBody_congr (h : ReadAlike t u) (m : Method) (body : List (Stmt Note Target))
    (result : Expr Note) :
    methodBody ⟨u, l, scope, locals⟩ m body result =
      methodBody ⟨t, l, scope, locals⟩ m body result := by
  rw [methodBody, genSlots_congr, genStmts_congr h, genExpr_congr h,
    methodBody]

end Body

section Module
variable {t u : ClassTable} (h : ReadAlike t u) (l : Layout)
include h

theorem methodFunctions_congr (cls : Name) (rest : LabelCounters → Built)
    (ds : List (MethodDecl .checked)) :
    methodFunctions u l cls rest ds = methodFunctions t l cls rest ds := by
  induction ds with
  | nil => rfl
  | cons d ds ih =>
    have header : ∀ m, methodHeader u m = methodHeader t m := by
      intro m
      rw [methodHeader, h.name, methodHeader]
    funext labels
    simp only [methodFunctions, h.method, header, methodBody_congr h, ih]

theorem classFunctions_congr (ds : List (ClassDecl .checked)) :
    classFunctions u l ds = classFunctions t l ds := by
  induction ds with
  | nil => rfl
  | cons d ds ih =>
    funext labels
    simp only [classFunctions, h.name, ih, methodFunctions_congr h]

/-- The module is the same, and so is what is lacking, if something is. -/
theorem generate_congr (p : Program .checked) : generate u l p = generate t l p := by
  have main : mainLocals u = mainLocals t := by rw [mainLocals, h.entry, mainLocals]
  have body : ∀ scope locals, mainBody ⟨u, l, scope, locals⟩ p.main.body =
      mainBody ⟨t, l, scope, locals⟩ p.main.body := by
    intro scope locals
    rw [mainBody, genSlots_congr, genStmts_congr h, mainBody]
  rw [generate, programFunctions, main, body, classFunctions_congr h, generate, programFunctions]

end Module

end MiniJava.Codegen
