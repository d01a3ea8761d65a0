import MiniJava.Codegen.Generate
import MiniJava.Proofs.Codegen.CutShort
import MiniJava.Proofs.Lines.Table
import MiniJava.Proofs.Lines.Syntax

/-!
# Code without lines

Code generation copies a line into an error and nowhere else. Without lines it writes the same code,
and fails where it failed, with the same error up to its line.
-/
namespace MiniJava

def CodegenError.unlined : CodegenError → CodegenError
  | .missingAnalysis kind _ => .missingAnalysis kind 0
  | .missingResolution kind _ => .missingResolution kind 0
  | .missingTarget name _ => .missingTarget name 0
  | .missingFieldOffset name => .missingFieldOffset name
  | .missingSlot name => .missingSlot name
  | .missingClass name => .missingClass name
  | .missingMethod name => .missingMethod name
  | .dangling => .dangling

namespace Codegen

/-- Results that are equal up to the line of an error. -/
theorem results_alike {α : Type} {x y : Except CodegenError α}
    (h : y.mapError CodegenError.unlined = x.mapError CodegenError.unlined) :
    (∃ a, x = .ok a ∧ y = .ok a) ∨
      ∃ e e', x = .error e ∧ y = .error e' ∧ e'.unlined = e.unlined := by
  cases x with
  | ok a =>
    cases y with
    | ok b => exact .inl ⟨a, rfl, congrArg Except.ok (Except.ok.inj h)⟩
    | error e' => cases h
  | error e =>
    cases y with
    | ok b => cases h
    | error e' => exact .inr ⟨e, e', rfl, rfl, Except.error.inj h⟩

/-- From every cursor both steps write the same code and go on from the same cursor, with the same
result or with errors that are equal up to lines. -/
structure SameCode {α : Type} (x y : Gen α) : Prop where
  code : ∀ k, (y k).code = (x k).code
  cursor : ∀ k, (y k).cursor = (x k).cursor
  result : ∀ k, (y k).result.mapError CodegenError.unlined =
    (x k).result.mapError CodegenError.unlined

namespace SameCode
variable {α β : Type}

theorem refl (x : Gen α) : SameCode x x := ⟨fun _ => rfl, fun _ => rfl, fun _ => rfl⟩

theorem bind {x y : Gen α} {f g : α → Gen β} (h : SameCode x y)
    (next : ∀ a, SameCode (f a) (g a)) : SameCode (x >>= f) (y >>= g) := by
  have all : ∀ k, ((y >>= g) k).code = ((x >>= f) k).code ∧
      ((y >>= g) k).cursor = ((x >>= f) k).cursor ∧
      ((y >>= g) k).result.mapError CodegenError.unlined =
        ((x >>= f) k).result.mapError CodegenError.unlined := by
    intro k
    obtain ⟨a, hx, hy⟩ | ⟨e, e', hx, hy, same⟩ := results_alike (h.result k)
    · rw [bind_eq hx, bind_eq hy, h.code k, h.cursor k]
      exact ⟨congrArg ((x k).code ++ ·) ((next a).code _), (next a).cursor _, (next a).result _⟩
    · rw [CutShort.of_error hx, CutShort.of_error hy]
      exact ⟨h.code k, h.cursor k, congrArg Except.error same⟩
  exact ⟨fun k => (all k).1, fun k => (all k).2.1, fun k => (all k).2.2⟩

theorem fail {e e' : CodegenError} (h : e'.unlined = e.unlined) :
    SameCode (Codegen.fail e : Gen α) (Codegen.fail e') :=
  ⟨fun _ => rfl, fun _ => rfl, fun _ => congrArg Except.error h⟩

theorem ofOption {e e' : CodegenError} (h : e'.unlined = e.unlined) (a : Option α) :
    SameCode (Codegen.ofOption e a) (Codegen.ofOption e' a) := by
  cases a with
  | none => exact fail h
  | some a => exact refl _

end SameCode

def Env.unlined (c : Env) : Env := ⟨c.table.unlined, c.layout, c.scope, c.locals.map Local.unlined⟩

section Env
variable (c : Env)

theorem varTy_unlined (v : VarRef) : varTy c.unlined v = varTy c v := by
  cases v with
  | loc i =>
    rw [varTy, varTy]
    dsimp only [Env.unlined]
    rw [List.getElem?_map, Option.map_map]
    rfl
  | field r =>
    rw [varTy, varTy]
    dsimp only [Env.unlined]
    rw [ClassTable.field?_unlined, Option.map_map]
    rfl

theorem varPointer_unlined (v : VarRef) : varPointer c.unlined v = varPointer c v := by
  cases v with
  | loc i =>
    rw [varPointer, varPointer]
    dsimp only [Env.unlined]
    rw [List.getElem?_map, Option.map_map]
    rfl
  | field r =>
    rw [varPointer, varPointer]
    dsimp only [Env.unlined]
    rw [ClassTable.field?_unlined]
    cases c.table.field? r <;> rfl

theorem loadVar_unlined (v : VarRef) : loadVar c.unlined v = loadVar c v := by
  rw [loadVar, varTy_unlined, varPointer_unlined, loadVar]

theorem storeVar_unlined (v : VarRef) (value : IR.Value) :
    storeVar c.unlined v value = storeVar c v value := by
  rw [storeVar, varTy_unlined, varPointer_unlined, storeVar]

theorem allocate_unlined (xs : List Local) :
    allocate c.unlined (xs.map Local.unlined) = allocate c xs := by
  induction xs with
  | nil => rfl
  | cons x xs ih =>
    rw [List.map_cons, allocate, ih, allocate]
    rfl

theorem storeParams_unlined (xs : List Local) :
    storeParams c.unlined (xs.map Local.unlined) = storeParams c xs := by
  induction xs with
  | nil => rfl
  | cons x xs ih =>
    rw [List.map_cons, storeParams, ih, storeParams]
    rfl

theorem genSlots_unlined (params : List Local) :
    genSlots c.unlined (params.map Local.unlined) = genSlots c params := by
  have locals : allocate c.unlined c.unlined.locals = allocate c c.locals := allocate_unlined c _
  rw [genSlots, locals, storeParams_unlined, genSlots]

end Env

theorem infoOf_unlined (e : Expr Note) : SameCode (infoOf e) (infoOf e.unlined) := by
  rw [infoOf, infoOf, Expr.note_unlined, Expr.kind_unlined]
  exact .ofOption (by rfl) _

theorem resolvedVar_alike {e e' : CodegenError} (h : e'.unlined = e.unlined) (info : ExprInfo) :
    SameCode (resolvedVar e info) (resolvedVar e' info) := by
  rw [resolvedVar, resolvedVar]
  split
  · exact .refl _
  · exact .fail h

theorem resolvedMethod_alike {e e' : CodegenError} (h : e'.unlined = e.unlined)
    (info : ExprInfo) : SameCode (resolvedMethod e info) (resolvedMethod e' info) := by
  rw [resolvedMethod, resolvedMethod]
  split
  · exact .refl _
  · exact .fail h

theorem resolvedClass_alike {e e' : CodegenError} (h : e'.unlined = e.unlined) (info : ExprInfo) :
    SameCode (resolvedClass e info) (resolvedClass e' info) := by
  rw [resolvedClass, resolvedClass]
  split
  · exact .refl _
  · exact .fail h

theorem genAnd_alike {lhs lhs' rhs rhs' : Gen IR.Value} (h : SameCode lhs lhs')
    (h' : SameCode rhs rhs') : SameCode (genAnd lhs rhs) (genAnd lhs' rhs') := by
  refine h.bind fun _ => (SameCode.refl _).bind fun _ => (SameCode.refl _).bind fun _ => ?_
  refine (SameCode.refl _).bind fun _ => (SameCode.refl _).bind fun _ => ?_
  exact h'.bind fun _ => .refl _

theorem invoke_unlined (m : Method) (slot : Nat) (receiver : IR.Value)
    (args : List (IRType × IR.Value)) :
    invoke m.unlined slot receiver args = invoke m slot receiver args := by
  rw [invoke, Method.signature_unlined, invoke]
  rfl

mutual

theorem genExpr_unlined (c : Env) :
    ∀ e : Expr Note, SameCode (genExpr c e) (genExpr c.unlined e.unlined)
  | .node line note form => genForm_unlined c line note form

theorem genForm_unlined (c : Env) (line : Nat) (note : Note) : ∀ form : ExprForm Note,
    SameCode (genForm c line note form) (genForm c.unlined 0 note form.unlined)
  | .binary op a b => by
    rw [ExprForm.unlined, genForm, genForm]
    split
    · exact genAnd_alike (genExpr_unlined c a) (genExpr_unlined c b)
    · exact (genExpr_unlined c a).bind fun _ => (genExpr_unlined c b).bind fun _ => .refl _
  | .not e => (genExpr_unlined c e).bind fun _ => .refl _
  | .lookup a i =>
    (infoOf_unlined a).bind fun _ => (genExpr_unlined c a).bind fun _ =>
      (genExpr_unlined c i).bind fun _ => .refl _
  | .length a => (infoOf_unlined a).bind fun _ => (genExpr_unlined c a).bind fun _ => .refl _
  | .send receiver name args => by
    refine (SameCode.ofOption (by rfl) note).bind fun info => ?_
    refine (resolvedMethod_alike (by rfl) info).bind fun r => ?_
    dsimp only [Env.unlined]
    rw [ClassTable.method?_unlined]
    cases c.table.method? r with
    | none => exact .refl (fail .dangling)
    | some m =>
      simp only [Option.map_some, ofOption_some, of_bind, Method.paramTys_unlined]
      refine (SameCode.refl _).bind fun slot => (genExpr_unlined c receiver).bind fun _ => ?_
      refine (genArgs_unlined c m.paramTys args).bind fun _ => ?_
      rw [invoke_unlined]
      exact .refl _
  | .int _ => .refl _
  | .tt => .refl _
  | .ff => .refl _
  | .name x => by
    refine (SameCode.ofOption (by rfl) note).bind fun info => ?_
    refine (resolvedVar_alike (by rfl) info).bind fun v => ?_
    rw [loadVar_unlined]
    exact .refl _
  | .this => .refl _
  | .newIntArray n => (genExpr_unlined c n).bind fun _ => .refl _
  | .newBooleanArray n => (genExpr_unlined c n).bind fun _ => .refl _
  | .newObject name =>
    (SameCode.ofOption (by rfl) note).bind fun info => (resolvedClass_alike (by rfl) info).bind fun _ =>
      .refl _
  | .bracket e => genExpr_unlined c e

theorem genArgs_unlined (c : Env) (tys : List Ty) : ∀ args : List (Expr Note),
    SameCode (genArgs c tys args) (genArgs c.unlined tys (unlinedArgs args))
  | [] => .refl _
  | e :: es => by
    cases tys with
    | nil => exact .refl _
    | cons ty tys =>
      exact (genExpr_unlined c e).bind fun _ => (genArgs_unlined c tys es).bind fun _ => .refl _

end

theorem genIf_alike {cond cond' : Gen IR.Value} {yes yes' no no' : Gen Unit}
    (h : SameCode cond cond') (hyes : SameCode yes yes') (hno : SameCode no no') :
    SameCode (genIf cond yes no) (genIf cond' yes' no') := by
  refine h.bind fun _ => (SameCode.refl _).bind fun _ => (SameCode.refl _).bind fun _ => ?_
  refine (SameCode.refl _).bind fun _ => hyes.bind fun _ => (SameCode.refl _).bind fun _ => ?_
  exact (SameCode.refl _).bind fun _ => hno.bind fun _ => .refl _

theorem genWhile_alike {cond cond' : Gen IR.Value} {body body' : Gen Unit}
    (h : SameCode cond cond') (h' : SameCode body body') :
    SameCode (genWhile cond body) (genWhile cond' body') := by
  refine (SameCode.refl _).bind fun _ => (SameCode.refl _).bind fun _ => ?_
  refine (SameCode.refl _).bind fun _ => h.bind fun _ => (SameCode.refl _).bind fun _ => ?_
  exact (SameCode.refl _).bind fun _ => h'.bind fun _ => .refl _

mutual

theorem genStmt_unlined (c : Env) : ∀ s : Stmt Note Target,
    SameCode (genStmt c s) (genStmt c.unlined s.unlined)
  | .block _ body => genStmts_unlined c body
  | .assign line x target value => by
    refine (genExpr_unlined c value).bind fun _ => (SameCode.ofOption (by rfl) _).bind fun _ => ?_
    rw [storeVar_unlined]
    exact .refl _
  | .arrayAssign line x target index value => by
    refine (SameCode.ofOption (by rfl) _).bind fun v => ?_
    rw [varTy_unlined, loadVar_unlined]
    refine (SameCode.refl _).bind fun _ => (SameCode.refl _).bind fun _ => ?_
    exact (genExpr_unlined c index).bind fun _ => (genExpr_unlined c value).bind fun _ => .refl _
  | .ifElse _ cond yes no =>
    genIf_alike (genExpr_unlined c cond) (genStmt_unlined c yes) (genStmt_unlined c no)
  | .while _ cond body => genWhile_alike (genExpr_unlined c cond) (genStmt_unlined c body)
  | .print _ value => (genExpr_unlined c value).bind fun _ => .refl _

theorem genStmts_unlined (c : Env) : ∀ ss : List (Stmt Note Target),
    SameCode (genStmts c ss) (genStmts c.unlined (unlinedBody ss))
  | [] => .refl _
  | s :: ss => (genStmt_unlined c s).bind fun _ => genStmts_unlined c ss

end

theorem mainBody_unlined (c : Env) (body : List (Stmt Note Target)) :
    SameCode (mainBody c body) (mainBody c.unlined (unlinedBody body)) := by
  have slots : genSlots c.unlined [] = genSlots c [] := genSlots_unlined c []
  rw [mainBody, mainBody, slots]
  exact (SameCode.refl _).bind fun _ => (genStmts_unlined c body).bind fun _ => .refl _

theorem methodBody_unlined (c : Env) (m : Method) (body : List (Stmt Note Target))
    (result : Expr Note) :
    SameCode (methodBody c m body result)
      (methodBody c.unlined m.unlined (unlinedBody body) result.unlined) := by
  have params : m.unlined.params = m.params.map Local.unlined := List.map_take.symm
  rw [methodBody, methodBody, params, genSlots_unlined]
  refine (SameCode.refl _).bind fun _ => (genStmts_unlined c body).bind fun _ => ?_
  exact (genExpr_unlined c result).bind fun _ => .refl _

theorem methodHeader_unlined (t : ClassTable) (m : Method) :
    methodHeader t.unlined m.unlined = methodHeader t m := by
  have params : m.unlined.params = m.params.map Local.unlined := List.map_take.symm
  rw [methodHeader, ClassTable.nameOf_unlined, params, List.map_map, methodHeader]
  rfl

/-- The same functions, and a failure up to its line. -/
structure Built.Alike (b b' : Built) : Prop where
  functions : b'.functions = b.functions
  labels : b'.labels = b.labels
  failure : b'.failure.map CodegenError.unlined = b.failure.map CodegenError.unlined

theorem addFunction_alike (labels : LabelCounters) (h : IR.Header) {x y : Gen Unit}
    (same : SameCode x y) {rest rest' : LabelCounters → Built}
    (next : ∀ l, (rest l).Alike (rest' l)) :
    (addFunction labels h x rest).Alike (addFunction labels h y rest') := by
  rw [addFunction, addFunction]
  dsimp only
  rw [same.code, same.cursor]
  obtain ⟨a, hx, hy⟩ | ⟨e, e', hx, hy, error⟩ := results_alike (same.result { labels })
  · rw [hx, hy]
    have after := next (x { labels }).cursor.labels
    exact ⟨congrArg (_ :: ·) after.functions, after.labels, after.failure⟩
  · rw [hx, hy]
    exact ⟨rfl, rfl, congrArg some error⟩

theorem methodFunctions_unlined (t : ClassTable) (l : Layout) (cls : Name)
    {rest rest' : LabelCounters → Built} (next : ∀ k, (rest k).Alike (rest' k))
    (ds : List (MethodDecl .checked)) (labels : LabelCounters) :
    (methodFunctions t l cls rest ds labels).Alike
      (methodFunctions t.unlined l cls rest' (ds.map MethodDecl.unlined) labels) := by
  induction ds generalizing labels with
  | nil => exact next labels
  | cons d ds ih =>
    rw [List.map_cons, methodFunctions, methodFunctions]
    dsimp only [MethodDecl.unlined]
    cases d.note with
    | none => exact ⟨rfl, rfl, rfl⟩
    | some ref =>
      dsimp only
      rw [ClassTable.method?_unlined]
      cases t.method? ref with
      | none => exact ⟨rfl, rfl, rfl⟩
      | some m =>
        dsimp only [Option.map_some]
        rw [methodHeader_unlined]
        exact addFunction_alike _ _ (methodBody_unlined ⟨t, l, _, m.locals⟩ m d.body d.result) ih

theorem classFunctions_unlined (t : ClassTable) (l : Layout) (ds : List (ClassDecl .checked))
    (labels : LabelCounters) :
    (classFunctions t l ds labels).Alike
      (classFunctions t.unlined l (ds.map ClassDecl.unlined) labels) := by
  induction ds generalizing labels with
  | nil => exact ⟨rfl, rfl, rfl⟩
  | cons d ds ih =>
    rw [List.map_cons, classFunctions, classFunctions]
    dsimp only [ClassDecl.unlined]
    cases d.note with
    | none => exact ⟨rfl, rfl, rfl⟩
    | some id =>
      dsimp only
      rw [ClassTable.nameOf_unlined]
      exact methodFunctions_unlined t l _ ih d.methods labels

theorem mainLocals_unlined (t : ClassTable) :
    mainLocals t.unlined = (mainLocals t).map Local.unlined := by
  rw [mainLocals, ClassTable.get?_unlined, mainLocals]
  cases t.get? 0 with
  | none => rfl
  | some c => cases h : c.entry <;> simp [Class.unlined, EntryPoint.unlined, h]

theorem programFunctions_unlined (t : ClassTable) (l : Layout) (p : Program .checked) :
    (programFunctions t l p).Alike (programFunctions t.unlined l p.unlined) := by
  rw [programFunctions, programFunctions, mainLocals_unlined]
  exact addFunction_alike _ _ (mainBody_unlined ⟨t, l, _, mainLocals t⟩ p.main.body)
    (classFunctions_unlined t l p.classes)

/-- The module is the same without lines, and so is a failure up to its line. -/
theorem generate_unlined (t : ClassTable) (l : Layout) (p : Program .checked) :
    (generate t.unlined l p.unlined).1 = (generate t l p).1 ∧
      (generate t.unlined l p.unlined).2.map CodegenError.unlined =
        (generate t l p).2.map CodegenError.unlined :=
  ⟨congrArg (IR.Module.mk l) (programFunctions_unlined t l p).functions,
    (programFunctions_unlined t l p).failure⟩

end Codegen

end MiniJava
