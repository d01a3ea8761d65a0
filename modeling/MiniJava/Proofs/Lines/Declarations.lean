import MiniJava.Check.Declarations
import MiniJava.Check.Overrides
import MiniJava.Proofs.Lines.Syntax
import MiniJava.Proofs.Lines.Table

/-!
# Declarations and overrides without lines
-/
namespace MiniJava.Check

open Found

section Declarations
variable (t : ClassTable)

theorem checkTy_unlined (line : Nat) (ty : Ty) :
    Unlined id (checkTy t line ty) (checkTy t.unlined 0 ty) := by
  cases ty with
  | object name =>
    rw [checkTy, checkTy, ClassTable.find?_unlined, ClassTable.names_unlined]
    cases t.find? name with
    | some _ => exact .of _ _
    | none => exact .report _ _
  | _ => exact .of _ _

theorem checkTys_unlined (ds : List VarDecl) :
    Unlined id (checkTys t ds) (checkTys t.unlined (ds.map VarDecl.unlined)) := by
  induction ds with
  | nil => exact .of _ _
  | cons d ds ih => exact (checkTy_unlined t d.line d.ty).bind fun _ => ih

theorem keepLocals_unlined (method : Name) (taken : List Name) (initialized : Bool)
    (kept : List Local) (ds : List VarDecl) :
    Unlined (List.map Local.unlined) (keepLocals t method taken initialized kept ds)
      (keepLocals t.unlined method taken initialized (kept.map Local.unlined)
        (ds.map VarDecl.unlined)) := by
  induction ds generalizing kept with
  | nil => exact .of _ _
  | cons d ds ih =>
    have names : (kept.map Local.unlined).any (·.name == d.name) =
        kept.any (·.name == d.name) := List.any_map
    rw [List.map_cons, keepLocals, keepLocals]
    refine (checkTy_unlined t d.line d.ty).bind fun _ => ?_
    refine .ite (by simp only [VarDecl.unlined, names]) ?_ ?_
    · exact (Unlined.report _ _).bind fun _ => ih kept
    · have next := ih (kept ++ [⟨d.name, d.ty, d.line, initialized⟩])
      rw [List.map_append] at next
      exact next

theorem methodLocals_unlined (m : MethodDecl .registered) :
    Unlined (Prod.map id (List.map Local.unlined)) (methodLocals t m)
      (methodLocals t.unlined m.unlined) := by
  refine (checkTy_unlined t m.line m.returnTy).bind fun _ => ?_
  refine (keepLocals_unlined t m.name [] true [] m.params).bind fun params => ?_
  refine (keepLocals_unlined t m.name [] false params m.vars).bind fun locals => ?_
  rw [List.length_map]
  exact .pure _ _

theorem declareMethods_unlined (ms : List (MethodDecl .registered)) :
    Unlined ClassTable.unlined (declareMethods t ms)
      (declareMethods t.unlined (ms.map MethodDecl.unlined)) := by
  induction ms generalizing t with
  | nil => exact .of _ _
  | cons m ms ih =>
    rw [List.map_cons, declareMethods, declareMethods]
    dsimp only [MethodDecl.unlined]
    cases m.note with
    | none => exact ih t
    | some ref =>
      refine (methodLocals_unlined t m).bind fun x => ?_
      have next := ih (t.modifyMethod ref fun method =>
        { method with paramCount := x.1, locals := x.2 })
      have changed := ClassTable.unlined_modifyMethod t ref
        (fun method => { method with paramCount := x.1, locals := x.2 })
        (fun method => { method with paramCount := x.1, locals := x.2.map Local.unlined })
        fun _ => rfl
      rw [changed] at next
      exact next

theorem initFields_unlined (strict : Bool) (c : Class) :
    (initFields strict c).unlined = initFields strict c.unlined := by
  simp only [initFields, Class.unlined, List.map_map]
  rfl

theorem declareClass_unlined (strict : Bool) (d : ClassDecl .registered) :
    Unlined ClassTable.unlined (declareClass strict t d) (declareClass strict t.unlined d.unlined) := by
  rw [declareClass, declareClass]
  dsimp only [ClassDecl.unlined]
  cases d.note with
  | none => exact .of _ _
  | some id =>
    refine (checkTys_unlined t d.fields).bind fun _ => ?_
    rw [← ClassTable.unlined_modify t id (initFields_unlined strict)]
    exact declareMethods_unlined _ _

theorem declareClasses_unlined (strict : Bool) (r : Report) (ds : List (ClassDecl .registered)) :
    declareClasses strict t.unlined r.unlined (ds.map ClassDecl.unlined) =
      Prod.map ClassTable.unlined Report.unlined (declareClasses strict t r ds) := by
  induction ds generalizing t r with
  | nil => rfl
  | cons d ds ih =>
    rw [List.map_cons, declareClasses, declareClasses, Report.full_unlined]
    split
    · rfl
    · have declared := declareClass_unlined t strict d
      dsimp only
      rw [declared.value, declared.findings, ← Report.unlined_addAll]
      exact ih _ _

theorem declareMain_unlined (m : MainClass .registered) :
    Unlined ClassTable.unlined (declareMain t m) (declareMain t.unlined m.unlined) := by
  refine (keepLocals_unlined t "main" [m.param] false [] m.vars).bind fun locals => ?_
  refine ⟨(ClassTable.unlined_modify t 0 fun k => ?_).symm, rfl⟩
  simp only [Class.unlined, Option.map_map]
  rfl

end Declarations

/-- The declarations are the same without lines. -/
theorem declarations_unlined (strict : Bool) (p : Program .registered) (t : ClassTable)
    (r : Report) :
    declarations strict p.unlined t.unlined r.unlined =
      Prod.map ClassTable.unlined Report.unlined (declarations strict p t r) := by
  have main := declareMain_unlined t p.main
  rw [declarations, declarations]
  dsimp only [Program.unlined]
  rw [main.value, main.findings, ← Report.unlined_addAll]
  exact declareClasses_unlined _ _ _ _

theorem compareReturn_unlined (m above : Method) (ancestor : Name) :
    Unlined id (compareReturn m above ancestor)
      (compareReturn m.unlined above.unlined ancestor) :=
  .ite .rfl (.of _ _) (.report _ _)

theorem compareParams_unlined (m above : Method) (ancestor : Name) :
    Unlined id (compareParams m above ancestor)
      (compareParams m.unlined above.unlined ancestor) := by
  rw [compareParams, compareParams, Method.paramTys_unlined, Method.paramTys_unlined]
  refine .ite .rfl ?_ ?_
  · cases mismatch? 1 m.paramTys above.paramTys with
    | none => exact .of _ _
    | some x => exact .report _ _
  · exact .report _ _

theorem checkOverride_unlined (t : ClassTable) (parent : ClassId) (m : Method) :
    Unlined id (checkOverride t parent m) (checkOverride t.unlined parent m.unlined) := by
  rw [checkOverride, checkOverride, ClassTable.findMethod?_unlined]
  dsimp only [Method.unlined]
  cases t.findMethod? parent m.name with
  | none => exact .of _ _
  | some ref =>
    dsimp only
    rw [ClassTable.method?_unlined, ClassTable.nameOf_unlined]
    cases t.method? ref with
    | none => exact .of _ _
    | some above =>
      exact (compareReturn_unlined m above _).bind fun _ => compareParams_unlined m above _

theorem checkMethods_unlined (t : ClassTable) (parent : ClassId) (ms : List Method) :
    Unlined id (checkMethods t parent ms)
      (checkMethods t.unlined parent (ms.map Method.unlined)) := by
  induction ms with
  | nil => exact .of _ _
  | cons m ms ih => exact (checkOverride_unlined t parent m).bind fun _ => ih

theorem checkClasses_unlined (t : ClassTable) (cs : List Class) :
    Unlined id (checkClasses t cs) (checkClasses t.unlined (cs.map Class.unlined)) := by
  induction cs with
  | nil => exact .of _ _
  | cons c cs ih =>
    rw [List.map_cons, checkClasses, checkClasses]
    dsimp only [Class.unlined]
    cases c.parent with
    | none => exact (Unlined.of id ()).bind fun _ => ih
    | some parent => exact (checkMethods_unlined t parent c.methods).bind fun _ => ih

/-- The overrides are judged the same without lines. -/
theorem overrides_unlined (t : ClassTable) (r : Report) :
    overrides t.unlined r.unlined = (overrides t r).unlined := by
  have classes : t.unlined.classes.toList = t.classes.toList.map Class.unlined := Array.toList_map
  rw [overrides, overrides, Report.unlined_addAll, classes,
    (checkClasses_unlined t t.classes.toList).findings]

end MiniJava.Check
