import MiniJava.Check.Analysis
import MiniJava.Proofs.Causes

/-!
# The pass an error comes from

Each pass has errors of its own. Only a class that does not exist is reported by two passes, since
its name may stand in a declaration and behind `new`.
-/
namespace MiniJava

/-- The passes that report an error. -/
def SemanticError.passes : SemanticError → List Pass
  | duplicateClass _ | unknownSuperclass .. | cyclicInheritance _ | cannotExtendMainClass ..
  | duplicateField .. | duplicateMethod .. | methodNamedLikeClass _ | methodNamedLikeField .. =>
    [.hierarchy]
  | nameAlreadyUsed .. => [.declarations]
  | unknownType .. => [.declarations, .bodies]
  | overrideReturnType .. | overrideParamCount .. | overrideParamType .. => [.overrides]
  | _ => [.bodies]

/-- Everything found is an error of one pass. -/
def FoundIn (pass : Pass) (fs : List Finding) : Prop := ∀ f ∈ fs, pass ∈ f.error.passes

section Lists
variable {pass : Pass}

@[simp] theorem foundIn_nil : FoundIn pass [] := by
  intro f hf
  cases hf

@[simp] theorem foundIn_cons {f : Finding} {fs : List Finding} :
    FoundIn pass (f :: fs) ↔ pass ∈ f.error.passes ∧ FoundIn pass fs :=
  List.forall_mem_cons

@[simp] theorem foundIn_append {fs gs : List Finding} :
    FoundIn pass (fs ++ gs) ↔ FoundIn pass fs ∧ FoundIn pass gs :=
  List.forall_mem_append

end Lists

namespace Check

theorem keepFields_foundIn (cls : Name) (ds : List VarDecl) :
    ∀ kept, FoundIn .hierarchy (keepFields cls kept ds).findings := by
  induction ds with
  | nil => exact fun _ => foundIn_nil
  | cons d ds ih =>
    intro kept
    rw [keepFields]
    split
    · simp [SemanticError.passes, ih]
    · exact ih _

theorem clash?_passes {cls : Name} {fields : List Field} {kept : List Method} {name : Name}
    {e : SemanticError} (h : clash? cls fields kept name = some e) : .hierarchy ∈ e.passes := by
  unfold clash? at h
  split at h
  · cases h
    simp [SemanticError.passes]
  · split at h
    · cases h
      simp [SemanticError.passes]
    · split at h
      · cases h
        simp [SemanticError.passes]
      · cases h

theorem keepMethods_foundIn (cls : Name) (id : ClassId) (fields : List Field)
    (ms : List (MethodDecl .bare)) :
    ∀ kept, FoundIn .hierarchy (keepMethods cls id fields kept ms).findings := by
  induction ms with
  | nil => exact fun _ => foundIn_nil
  | cons m ms ih =>
    intro kept
    rw [keepMethods]
    split
    · rename_i e clash
      simp [clash?_passes clash, ih]
    · simp [ih]

theorem parentOf_foundIn (t : ClassTable) (d : ClassDecl .bare) :
    FoundIn .hierarchy (parentOf t d).findings := by
  unfold parentOf
  split
  · exact foundIn_nil
  · split
    · simp [SemanticError.passes]
    · split
      · simp [SemanticError.passes]
      · split <;> simp [SemanticError.passes]

theorem enter_foundIn (t : ClassTable) (d : ClassDecl .bare) :
    FoundIn .hierarchy (enter t d).findings := by
  unfold enter
  split
  · simp [SemanticError.passes]
  · simp [keepFields_foundIn, parentOf_foundIn, keepMethods_foundIn]

theorem checkTy_foundIn (t : ClassTable) (line : Nat) (ty : Ty) :
    FoundIn .declarations (checkTy t line ty).findings := by
  intro f hf
  obtain ⟨x, rfl⟩ := mem_checkTy hf
  simp [SemanticError.passes]

theorem checkTys_foundIn (t : ClassTable) (ds : List VarDecl) :
    FoundIn .declarations (checkTys t ds).findings := by
  induction ds with
  | nil => exact foundIn_nil
  | cons d ds ih => simp [checkTys, checkTy_foundIn, ih]

theorem keepLocals_foundIn (t : ClassTable) (method : Name) (taken : List Name) (init : Bool)
    (ds : List VarDecl) :
    ∀ kept, FoundIn .declarations (keepLocals t method taken init kept ds).findings := by
  induction ds with
  | nil => exact fun _ => foundIn_nil
  | cons d ds ih =>
    intro kept
    rw [keepLocals, Found.findings_bind, foundIn_append]
    refine ⟨checkTy_foundIn t d.line d.ty, ?_⟩
    split
    · simp [SemanticError.passes, ih]
    · exact ih _

theorem declareMethods_foundIn (ms : List (MethodDecl .registered)) :
    ∀ t : ClassTable, FoundIn .declarations (declareMethods t ms).findings := by
  induction ms with
  | nil => exact fun _ => foundIn_nil
  | cons m ms ih =>
    intro t
    rw [declareMethods]
    split
    · exact ih t
    · simp [methodLocals, checkTy_foundIn, keepLocals_foundIn, ih]

theorem declareClass_foundIn (strict : Bool) (t : ClassTable) (d : ClassDecl .registered) :
    FoundIn .declarations (declareClass strict t d).findings := by
  unfold declareClass
  split
  · exact foundIn_nil
  · simp [checkTys_foundIn, declareMethods_foundIn]

theorem declareMain_foundIn (t : ClassTable) (m : MainClass .registered) :
    FoundIn .declarations (declareMain t m).findings := by
  simp [declareMain, keepLocals_foundIn]

theorem checkOverride_foundIn (t : ClassTable) (parent : ClassId) (m : Method) :
    FoundIn .overrides (checkOverride t parent m).findings := by
  unfold checkOverride
  split
  · exact foundIn_nil
  · split
    · exact foundIn_nil
    · rw [Found.findings_bind, foundIn_append]
      constructor
      · unfold compareReturn
        split <;> simp [SemanticError.passes]
      · unfold compareParams
        split
        · split <;> simp [SemanticError.passes]
        · simp [SemanticError.passes]

theorem checkMethods_foundIn (t : ClassTable) (parent : ClassId) (ms : List Method) :
    FoundIn .overrides (checkMethods t parent ms).findings := by
  induction ms with
  | nil => exact foundIn_nil
  | cons m ms ih => simp [checkMethods, checkOverride_foundIn, ih]

theorem checkClasses_foundIn (t : ClassTable) (cs : List Class) :
    FoundIn .overrides (checkClasses t cs).findings := by
  induction cs with
  | nil => exact foundIn_nil
  | cons c cs ih =>
    rw [checkClasses]
    split
    · exact ih
    · simp [checkMethods_foundIn, ih]

theorem resolve_foundIn (s : Scope) (line : Nat) (x : Name) :
    FoundIn .bodies (s.resolve line x).findings := by
  intro f hf
  rcases mem_resolve hf with rfl | rfl <;> simp [SemanticError.passes]

theorem checkInitialized_foundIn (s : Scope) (line : Nat) (x : Name) (v : VarRef) :
    FoundIn .bodies (s.checkInitialized line x v).findings := by
  intro f hf
  obtain rfl := mem_checkInitialized hf
  simp [SemanticError.passes]

theorem instantiate_foundIn (s : Scope) (line : Nat) (x : Name) :
    FoundIn .bodies (s.instantiate line x).findings := by
  intro f hf
  rcases mem_instantiate hf with rfl | rfl <;> simp [SemanticError.passes]

theorem callee_foundIn (s : Scope) (line : Nat) (ty : Ty) (x : Name) :
    FoundIn .bodies (s.callee line ty x).findings := by
  intro f hf
  rcases mem_callee hf with ⟨_, rfl⟩ | ⟨c, _, rfl⟩ <;> simp [SemanticError.passes]

theorem expect_foundIn (line : Nat) (e : Expr Note) (ty : Ty) (error : Ty → SemanticError)
    (h : ∀ ty, (error ty).passes = [.bodies]) :
    FoundIn .bodies (expect line e ty error).findings := by
  intro f hf
  obtain ⟨found, rfl⟩ := mem_expect hf
  simp [h]

theorem typeBinary_foundIn (line : Nat) (op : BinOp) (lhs rhs : Expr Note) :
    FoundIn .bodies (typeBinary line op lhs rhs).findings := by
  intro f hf
  obtain ⟨l, r, rfl⟩ := mem_typeBinary hf
  simp [SemanticError.passes]

theorem elementTy_foundIn (line : Nat) (array : Expr Note) :
    FoundIn .bodies (elementTy line array).findings := by
  intro f hf
  obtain ⟨ty, rfl⟩ := mem_elementTy hf
  simp [SemanticError.passes]

theorem checkArg_foundIn (s : Scope) (line : Nat) (method : Name) (position : Nat) (ty : Ty)
    (arg : Expr Note) : FoundIn .bodies (checkArg s line method position ty arg).findings := by
  intro f hf
  obtain ⟨found, rfl⟩ := mem_checkArg hf
  simp [SemanticError.passes]

mutual

theorem typeExpr_foundIn (s : Scope) :
    ∀ e : Expr Unit, FoundIn .bodies (typeExpr s e).findings
  | .node line _ form => by simp [typeExpr, typeForm_foundIn s line form]

theorem typeForm_foundIn (s : Scope) (line : Nat) :
    ∀ form : ExprForm Unit, FoundIn .bodies (typeForm s line form).findings
  | .binary op lhs rhs => by
    simp [typeForm, typeExpr_foundIn s lhs, typeExpr_foundIn s rhs, typeBinary_foundIn]
  | .not operand => by
    simp [typeForm, typeExpr_foundIn s operand,
      expect_foundIn _ _ _ .invalidNotOperand fun _ => rfl]
  | .lookup array index => by
    simp only [typeForm, Found.findings_bind, foundIn_append, typeExpr_foundIn s array,
      elementTy_foundIn, true_and]
    split
    · exact foundIn_nil
    · simp [typeExpr_foundIn s index,
        expect_foundIn _ _ _ .indexMustBeInt fun _ => rfl]
  | .length array => by simp [typeForm, typeExpr_foundIn s array, elementTy_foundIn]
  | .send receiver name args => by
    simp only [typeForm, Found.findings_bind, foundIn_append, typeExpr_foundIn s receiver,
      true_and]
    split
    · exact foundIn_nil
    · simp only [Found.findings_bind, foundIn_append, callee_foundIn, true_and]
      split
      · exact foundIn_nil
      · split
        · simp [typeArgs_foundIn s line name 1 _ args]
        · simp [SemanticError.passes]
  | .int _ => foundIn_nil
  | .tt => foundIn_nil
  | .ff => foundIn_nil
  | .name x => by
    simp only [typeForm, Found.findings_bind, foundIn_append, resolve_foundIn, true_and]
    split
    · exact foundIn_nil
    · simp [checkInitialized_foundIn]
  | .this => by
    rw [typeForm]
    split <;> simp [SemanticError.passes]
  | .newIntArray size => by
    simp [typeForm, typeExpr_foundIn s size,
      expect_foundIn _ _ _ .arraySizeMustBeInt fun _ => rfl]
  | .newBooleanArray size => by
    simp [typeForm, typeExpr_foundIn s size,
      expect_foundIn _ _ _ .arraySizeMustBeInt fun _ => rfl]
  | .newObject name => by simp [typeForm, instantiate_foundIn]
  | .bracket inner => by simp [typeForm, typeExpr_foundIn s inner]

theorem typeArgs_foundIn (s : Scope) (line : Nat) (method : Name) (position : Nat)
    (tys : List Ty) :
    ∀ args : List (Expr Unit), FoundIn .bodies (typeArgs s line method position tys args).findings
  | [] => foundIn_nil
  | arg :: args => by
    simp [typeArgs, typeExpr_foundIn s arg, checkArg_foundIn,
      typeArgs_foundIn s line method (position + 1) tys.tail args]

end

theorem checkStored_foundIn (t : ClassTable) (line : Nat) (ty : Ty) (value : Expr Note) :
    FoundIn .bodies (checkStored t line ty value).findings := by
  intro f hf
  obtain ⟨found, rfl⟩ := mem_checkStored hf
  simp [SemanticError.passes]

theorem checkArrayAssign_foundIn (s : Scope) (line : Nat) (x : Name) (index value : Expr Unit) :
    FoundIn .bodies (checkArrayAssign s line x index value).findings := by
  simp only [checkArrayAssign, Found.findings_bind, foundIn_append, resolve_foundIn, true_and]
  split
  · exact foundIn_nil
  · simp only [Found.findings_bind, foundIn_append, checkInitialized_foundIn, true_and]
    split
    · simp [SemanticError.passes]
    · simp only [Found.findings_bind, foundIn_append, typeExpr_foundIn, true_and,
        expect_foundIn _ _ _ .indexMustBeInt fun _ => rfl]
      split
      · simp [typeExpr_foundIn,
          expect_foundIn _ _ _ (.incompatibleTypes _) fun _ => rfl]
      · exact foundIn_nil

end Check

end MiniJava
