import MiniJava.Check.Expression
import MiniJava.Proofs.Lines.Syntax
import MiniJava.Proofs.Lines.Table

/-!
# Types of expressions without lines

Lines stand in findings, and nothing is decided by them.
-/
namespace MiniJava.Check

open Found

namespace Scope

def unlined (s : Scope) : Scope := ⟨s.table.unlined, s.place⟩

variable (s : Scope)

@[simp] theorem entry?_unlined : s.unlined.entry? = s.entry?.map EntryPoint.unlined := by
  simp only [ entry?, unlined, ClassTable.get?_unlined]
  cases s.table.get? s.place.cls <;> rfl

@[simp] theorem locals_unlined : s.unlined.locals = s.locals.map Local.unlined := by
  rw [locals, entry?_unlined, locals]
  dsimp only [unlined]
  cases s.place.method with
  | none => cases s.entry? <;> rfl
  | some m =>
    dsimp only
    rw [ClassTable.method?_unlined]
    cases s.table.method? m <;> rfl

@[simp] theorem isMainParam_unlined (x : Name) : s.unlined.isMainParam x = s.isMainParam x := by
  rw [isMainParam, entry?_unlined, isMainParam]
  cases s.entry? <;> rfl

@[simp] theorem visibleNames_unlined : s.unlined.visibleNames = s.visibleNames := by
  rw [visibleNames, locals_unlined, visibleNames]
  dsimp only [unlined]
  rw [ClassTable.visibleFields_unlined, List.map_map, List.map_map]
  rfl

theorem resolve_unlined (line : Nat) (x : Name) :
    Unlined id (s.resolve line x) (s.unlined.resolve 0 x) := by
  have locals : (s.locals.map Local.unlined).findIdx? (·.name == x) =
      s.locals.findIdx? (·.name == x) := List.findIdx?_map ..
  rw [resolve, resolve, locals_unlined, locals]
  cases s.locals.findIdx? (·.name == x) with
  | some i =>
    dsimp only
    rw [List.getElem?_map, Option.map_map]
    exact .of _ _
  | none =>
    refine .ite (by rw [isMainParam_unlined]) ?_ ?_
    · exact .reported _ _ _ _
    · dsimp only [unlined]
      rw [ClassTable.findField?_unlined]
      cases s.table.findField? s.place.cls x with
      | some r =>
        dsimp only
        rw [ClassTable.field?_unlined, Option.map_map]
        exact .of _ _
      | none =>
        have names := s.visibleNames_unlined
        dsimp only [unlined] at names ⊢
        rw [names]
        exact .reported _ _ _ _

@[simp] theorem isInitialized_unlined (v : VarRef) :
    s.unlined.isInitialized v = s.isInitialized v := by
  cases v with
  | loc i =>
    rw [isInitialized, locals_unlined, List.getElem?_map, isInitialized, Option.any_map]
    rfl
  | field r =>
    rw [isInitialized, isInitialized]
    dsimp only [unlined]
    rw [ClassTable.field?_unlined, Option.any_map]
    rfl

theorem checkInitialized_unlined (line : Nat) (x : Name) (v : VarRef) :
    Unlined id (s.checkInitialized line x v) (s.unlined.checkInitialized 0 x v) :=
  .ite (by rw [isInitialized_unlined]) (.of _ _) (.report _ _)

theorem instantiate_unlined (line : Nat) (x : Name) :
    Unlined id (s.instantiate line x) (s.unlined.instantiate 0 x) := by
  rw [instantiate, instantiate]
  dsimp only [unlined]
  rw [ClassTable.find?_unlined, ClassTable.names_unlined]
  cases s.table.find? x with
  | none => exact .reported _ _ _ _
  | some c =>
    refine .ite (by rw [ClassTable.isMain_unlined]) ?_ (.of _ _)
    exact .reported _ _ _ _

theorem callee_unlined (line : Nat) (ty : Ty) (x : Name) :
    Unlined (Option.map (Prod.map id Method.unlined)) (s.callee line ty x)
      (s.unlined.callee 0 ty x) := by
  rw [callee, callee]
  dsimp only [unlined]
  rw [funext s.table.find?_unlined]
  cases ty.className?.bind s.table.find? with
  | none => exact .reported _ _ _ _
  | some c =>
    dsimp only
    rw [ClassTable.findMethod?_unlined]
    cases s.table.findMethod? c x with
    | none =>
      rw [ClassTable.visibleMethods_unlined, List.map_map]
      exact .reported _ _ _ _
    | some r =>
      dsimp only
      rw [ClassTable.method?_unlined]
      cases s.table.method? r <;> exact .of _ _

end Scope

theorem blank_unlined (e : Expr Unit) : blank e.unlined = (blank e).unlined :=
  (Expr.unlined_map _ e).symm

theorem blankArgs_unlined (es : List (Expr Unit)) :
    blankArgs (unlinedArgs es) = unlinedArgs (blankArgs es) := (unlinedArgs_mapArgs _ es).symm

theorem expect_unlined (line : Nat) (e : Expr Note) (ty : Ty) (error : Ty → SemanticError) :
    Unlined id (expect line e ty error) (expect 0 e.unlined ty error) := by
  rw [expect, expect, Expr.note_unlined]
  cases e.note with
  | none => exact .of _ _
  | some info =>
    refine .ite .rfl (.of _ _) ?_
    exact .reported _ _ _ _

theorem typeBinary_unlined (line : Nat) (op : BinOp) (lhs rhs : Expr Note) :
    Unlined id (typeBinary line op lhs rhs) (typeBinary 0 op lhs.unlined rhs.unlined) := by
  rw [typeBinary, typeBinary, Expr.note_unlined, Expr.note_unlined]
  cases lhs.note with
  | none => exact .of _ _
  | some l =>
    cases rhs.note with
    | none => exact .of _ _
    | some r =>
      refine .ite .rfl (.of _ _) ?_
      exact .reported _ _ _ _

theorem elementTy_unlined (line : Nat) (array : Expr Note) :
    Unlined id (elementTy line array) (elementTy 0 array.unlined) := by
  rw [elementTy, elementTy, Expr.note_unlined]
  cases array.note with
  | none => exact .of _ _
  | some info =>
    dsimp only
    cases info.ty.element? with
    | some ty => exact .of _ _
    | none => exact .reported _ _ _ _

theorem checkArg_unlined (s : Scope) (line : Nat) (method : Name) (position : Nat) (ty : Ty)
    (arg : Expr Note) :
    Unlined id (checkArg s line method position ty arg)
      (checkArg s.unlined 0 method position ty arg.unlined) := by
  rw [checkArg, checkArg, Expr.note_unlined]
  cases arg.note with
  | none => exact .of _ _
  | some info =>
    refine .ite (by rw [Scope.unlined, ClassTable.assignable_unlined]) (.of _ _) ?_
    exact .reported _ _ _ _

mutual

theorem typeExpr_unlined (s : Scope) :
    ∀ e : Expr Unit, Unlined Expr.unlined (typeExpr s e) (typeExpr s.unlined e.unlined)
  | .node line _ form => (typeForm_unlined s line form).bind fun _ => .pure _ _

theorem typeForm_unlined (s : Scope) (line : Nat) :
    ∀ form : ExprForm Unit, Unlined (Prod.map ExprForm.unlined id) (typeForm s line form)
      (typeForm s.unlined 0 form.unlined)
  | .binary op lhs rhs => by
    refine (typeExpr_unlined s lhs).bind fun lhs => (typeExpr_unlined s rhs).bind fun rhs => ?_
    exact (typeBinary_unlined line op lhs rhs).bind fun _ => .pure _ _
  | .not operand => by
    refine (typeExpr_unlined s operand).bind fun operand => ?_
    exact (expect_unlined line operand _ _).bind fun _ => .pure _ _
  | .lookup array index => by
    refine (typeExpr_unlined s array).bind fun array => ?_
    refine (elementTy_unlined line array).bind fun ty => ?_
    cases ty with
    | none =>
      dsimp only [id]
      rw [blank_unlined]
      exact .pure _ _
    | some ty =>
      refine (typeExpr_unlined s index).bind fun index => ?_
      exact (expect_unlined line index _ _).bind fun _ => .pure _ _
  | .length array => by
    refine (typeExpr_unlined s array).bind fun array => ?_
    exact (elementTy_unlined line array).bind fun _ => .pure _ _
  | .send receiver name args => by
    refine (typeExpr_unlined s receiver).bind fun receiver => ?_
    rw [Expr.note_unlined, blankArgs_unlined, length_unlinedArgs]
    cases receiver.note with
    | none => exact .pure _ _
    | some info =>
      refine (s.callee_unlined line info.ty name).bind fun called => ?_
      cases called with
      | none => exact .pure _ _
      | some called =>
        obtain ⟨ref, method⟩ := called
        dsimp only [Option.map, Prod.map, id]
        rw [Method.paramTys_unlined]
        refine .ite .rfl ?_ ?_
        · exact (typeArgs_unlined s line name 1 method.paramTys args).bind fun _ => .pure _ _
        · exact .reported _ _ _ _
  | .int _ => .of _ _
  | .tt => .of _ _
  | .ff => .of _ _
  | .name x => by
    refine (s.resolve_unlined line x).bind fun found => ?_
    cases found with
    | none => exact .pure _ _
    | some found => exact (s.checkInitialized_unlined line x found.1).bind fun _ => .pure _ _
  | .this => by
    rw [typeForm, ExprForm.unlined, typeForm]
    dsimp only [Scope.unlined]
    rw [ClassTable.nameOf_unlined]
    cases s.place.method with
    | none => exact .reported _ _ _ _
    | some _ => exact .of _ _
  | .newIntArray size => by
    refine (typeExpr_unlined s size).bind fun size => ?_
    exact (expect_unlined line size _ _).bind fun _ => .pure _ _
  | .newBooleanArray size => by
    refine (typeExpr_unlined s size).bind fun size => ?_
    exact (expect_unlined line size _ _).bind fun _ => .pure _ _
  | .newObject name => (s.instantiate_unlined line name).bind fun _ => .pure _ _
  | .bracket inner => by
    refine (typeExpr_unlined s inner).bind fun inner => ?_
    rw [Expr.note_unlined]
    exact .pure _ _

theorem typeArgs_unlined (s : Scope) (line : Nat) (method : Name) (position : Nat)
    (tys : List Ty) : ∀ args : List (Expr Unit),
    Unlined (Prod.map unlinedArgs id) (typeArgs s line method position tys args)
      (typeArgs s.unlined 0 method position tys (unlinedArgs args))
  | [] => .of _ _
  | arg :: args => by
    refine (typeExpr_unlined s arg).bind fun arg => ?_
    refine (checkArg_unlined s line method position (tys.headD .int) arg).bind fun ok => ?_
    exact (typeArgs_unlined s line method (position + 1) tys.tail args).bind fun _ => .pure _ _

end

end MiniJava.Check
