import MiniJava.Proofs.Hierarchy
import MiniJava.Proofs.Lines.Syntax
import MiniJava.Proofs.Lines.Table

/-!
# The class hierarchy without lines
-/
namespace MiniJava.Check

open Found

theorem any_name_unlined_field (fs : List Field) (x : Name) :
    (fs.map Field.unlined).any (·.name == x) = fs.any (·.name == x) := List.any_map

theorem any_name_unlined_method (ms : List Method) (x : Name) :
    (ms.map Method.unlined).any (·.name == x) = ms.any (·.name == x) := List.any_map

theorem keepFields_unlined (cls : Name) (kept : List Field) (ds : List VarDecl) :
    Unlined (List.map Field.unlined) (keepFields cls kept ds)
      (keepFields cls (kept.map Field.unlined) (ds.map VarDecl.unlined)) := by
  induction ds generalizing kept with
  | nil => exact .of _ _
  | cons d ds ih =>
    rw [List.map_cons, keepFields, keepFields, any_name_unlined_field]
    refine .ite .rfl ?_ ?_
    · exact (Unlined.report _ _).bind fun _ => ih kept
    · have next := ih (kept ++ [{ name := d.name, ty := d.ty, line := d.line }])
      rw [List.map_append] at next
      exact next

theorem parentOf_unlined (t : ClassTable) (d : ClassDecl .bare) :
    Unlined id (parentOf t d) (parentOf t.unlined d.unlined) := by
  rw [parentOf, parentOf]
  dsimp only [ClassDecl.unlined]
  cases d.superclass with
  | none => exact .of _ _
  | some s =>
    dsimp only
    rw [ClassTable.find?_unlined]
    refine .ite .rfl ?_ ?_
    · exact .reported _ _ _ _
    · cases t.find? s with
      | none => exact .reported _ _ _ _
      | some p =>
        dsimp only
        rw [ClassTable.isMain_unlined]
        refine .ite .rfl ?_ ?_
        · exact .reported _ _ _ _
        · exact .of _ _

theorem clash?_unlined (cls : Name) (fields : List Field) (kept : List Method) (name : Name) :
    clash? cls (fields.map Field.unlined) (kept.map Method.unlined) name =
      clash? cls fields kept name := by
  rw [clash?, clash?, any_name_unlined_field, any_name_unlined_method]

theorem keepMethods_unlined (cls : Name) (id : ClassId) (fields : List Field) (kept : List Method)
    (ms : List (MethodDecl .bare)) :
    Unlined (Prod.map (List.map Method.unlined) (List.map MethodDecl.unlined))
      (keepMethods cls id fields kept ms)
      (keepMethods cls id (fields.map Field.unlined) (kept.map Method.unlined)
        (ms.map MethodDecl.unlined)) := by
  induction ms generalizing kept with
  | nil => exact .of _ _
  | cons m ms ih =>
    rw [List.map_cons, keepMethods, keepMethods]
    dsimp only [MethodDecl.unlined]
    rw [clash?_unlined]
    cases clash? cls fields kept m.name with
    | some e =>
      refine (Unlined.report _ _).bind fun _ => (ih kept).bind fun x => ?_
      exact .pure _ _
    | none =>
      have next := ih (kept ++ [{ name := m.name, line := m.line, owner := id, returnTy := m.returnTy }])
      rw [List.map_append] at next
      refine next.bind fun x => ?_
      rw [List.length_map]
      exact .pure _ _

theorem unregistered_unlined (d : ClassDecl .bare) :
    unregistered d.unlined = (unregistered d).unlined := by
  simp only [unregistered, registerClass, ClassDecl.unlined, List.map_map]
  rfl

theorem enter_unlined (t : ClassTable) (d : ClassDecl .bare) :
    Unlined (Prod.map ClassTable.unlined ClassDecl.unlined) (enter t d)
      (enter t.unlined d.unlined) := by
  rw [enter, enter, ClassTable.find?_unlined, unregistered_unlined]
  dsimp only [ClassDecl.unlined]
  cases t.find? d.name with
  | some _ => exact .reported _ _ _ _
  | none =>
    refine (keepFields_unlined d.name [] d.fields).bind fun fields => ?_
    refine (parentOf_unlined t d).bind fun parent => ?_
    rw [ClassTable.size_unlined]
    refine (keepMethods_unlined d.name t.size fields [] d.methods).bind fun x => ?_
    have added := t.unlined_add { name := d.name, line := d.line, parent, fields, methods := x.1 }
    exact ⟨congrArg (fun r => (r.2, registerClass d.unlined r.1 (x.2.map MethodDecl.unlined))) added,
      rfl⟩

theorem enterAll_unlined (t : ClassTable) (r : Report) (ds : List (ClassDecl .bare)) :
    enterAll t.unlined r.unlined (ds.map ClassDecl.unlined) =
      ((enterAll t r ds).1.unlined, (enterAll t r ds).2.1.unlined,
        (enterAll t r ds).2.2.map ClassDecl.unlined) := by
  induction ds generalizing t r with
  | nil => rfl
  | cons d ds ih =>
    rw [List.map_cons, enterAll, enterAll, Report.full_unlined]
    split
    · refine Prod.ext rfl (Prod.ext rfl ?_)
      rw [← List.map_cons, List.map_map, List.map_map]
      exact List.map_congr_left fun d _ => unregistered_unlined d
    · dsimp only
      rw [(enter_unlined t d).value, (enter_unlined t d).findings, ← Report.unlined_addAll]
      dsimp only [Prod.map]
      rw [ih]
      rfl

theorem inheritedOf_unlined (t : ClassTable) (c : ClassId) :
    inheritedOf t.unlined c = inheritedOf t c :=
  inheritedOf_congr t.ancestors_unlined
    (fun c => by rw [ClassTable.methods_unlined, List.map_map]; rfl) c

theorem withInherited_unlined (t : ClassTable) :
    withInherited t.unlined = (withInherited t).unlined := by
  refine ClassTable.ext (Array.ext_getElem? fun i => ?_) rfl
  change (withInherited t.unlined).get? i = (withInherited t).unlined.get? i
  rw [get?_withInherited, ClassTable.get?_unlined, ClassTable.get?_unlined, get?_withInherited,
    inheritedOf_unlined]
  cases t.get? i <;> rfl

theorem mainOnly_unlined (m : MainClass .bare) : (mainOnly m).unlined = mainOnly m.unlined := by
  have none : ClassTable.empty.unlined = .empty := ClassTable.ext Array.map_empty rfl
  have added := ClassTable.empty.unlined_add
    { name := m.name, line := m.line, entry := some { param := m.param } }
  rw [none] at added
  exact (congrArg Prod.snd added).symm

/-- The class hierarchy is the same without lines. -/
theorem hierarchy_unlined (limit : Option Nat) (p : Program .bare) :
    hierarchy limit p.unlined =
      ⟨(hierarchy limit p).table.unlined, (hierarchy limit p).program.unlined,
        (hierarchy limit p).report.unlined⟩ := by
  have entered := enterAll_unlined (mainOnly p.main) { limit } p.classes
  rw [mainOnly_unlined] at entered
  rw [hierarchy]
  dsimp only [Program.unlined]
  rw [show ({ limit } : Report) = Report.unlined { limit } from rfl, entered]
  dsimp only
  rw [withInherited_unlined]
  rfl

end MiniJava.Check
