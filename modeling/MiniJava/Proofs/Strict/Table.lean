import MiniJava.Proofs.Initialization
import MiniJava.Proofs.Layout.Unseen

/-!
# Class tables in which every field counts as initialized

Strict mode starts with no field marked, the other mode with all of them marked, and that is the
only difference between the class tables that the two modes declare. Nothing that is looked up,
declared or compared reads a mark.
-/
namespace MiniJava

def Field.filled (f : Field) : Field := { f with initialized := true }

def Class.filled (k : Class) : Class := { k with fields := k.fields.map Field.filled }

theorem Class.unnoticed_filled : Class.Unnoticed Class.filled where
  name _ := rfl
  parent _ := rfl
  isMain _ := rfl
  fieldNames _ := List.map_map
  methodNames _ := rfl

theorem Class.unseen_filled : Class.Unseen Class.filled Field.filled id where
  unnoticed := Class.unnoticed_filled
  fields _ := rfl
  methods _ := (List.map_id _).symm
  inherited _ := rfl
  members _ _ _ := by simp only [Class.filled, List.map_id]
  fieldName _ := rfl
  fieldTy _ := rfl
  offset _ := rfl
  place _ _ := rfl
  methodName _ := rfl
  signature _ := rfl
  slot _ := rfl
  number _ _ := rfl

namespace ClassTable

/-- The same class table, with a mark on every field. -/
def filled (t : ClassTable) : ClassTable := t.map Class.filled

section Lookup
variable (t : ClassTable) (c : ClassId)

@[simp] theorem names_filled : t.filled.names = t.names := names_map Class.unnoticed_filled t

@[simp] theorem find?_filled (n : Name) : t.filled.find? n = t.find? n :=
  find?_map Class.filled t n

@[simp] theorem nameOf_filled : t.filled.nameOf c = t.nameOf c :=
  nameOf_map Class.unnoticed_filled t c

@[simp] theorem isMain_filled : t.filled.isMain c = t.isMain c :=
  isMain_map Class.unnoticed_filled t c

@[simp] theorem assignable_filled (target source : Ty) :
    t.filled.assignable target source = t.assignable target source :=
  assignable_map Class.unnoticed_filled t target source

@[simp] theorem findField?_filled (x : Name) : t.filled.findField? c x = t.findField? c x :=
  findField?_map Class.unnoticed_filled t c x

@[simp] theorem findMethod?_filled (m : Name) : t.filled.findMethod? c m = t.findMethod? c m :=
  findMethod?_map Class.unnoticed_filled t c m

@[simp] theorem fields_filled : t.filled.fields c = (t.fields c).map Field.filled :=
  fields_map _ t c fun _ => rfl

@[simp] theorem methods_filled : t.filled.methods c = t.methods c :=
  (methods_map _ t c Class.unseen_filled.methods).trans (List.map_id _)

@[simp] theorem field?_filled (r : FieldRef) :
    t.filled.field? r = (t.field? r).map Field.filled := by
  rw [field?, fields_filled, List.getElem?_map, field?]

@[simp] theorem method?_filled (r : MethodRef) : t.filled.method? r = t.method? r := by
  rw [method?, methods_filled, method?]

@[simp] theorem visibleMethods_filled : t.filled.visibleMethods c = t.visibleMethods c := by
  have chain : t.filled.chain c = t.chain c := chain_map Class.unnoticed_filled t c
  rw [visibleMethods, chain, funext (methods_filled t), visibleMethods]

/-- The static method `main` is left as it is. -/
@[simp] theorem entry_filled :
    (t.filled.get? c).bind (·.entry) = (t.get? c).bind (·.entry) := by
  rw [filled, get?_map]
  cases t.get? c <;> rfl

end Lookup

/-- Where every field is marked, there is none left to mark. -/
theorem filled_eq_self {t : ClassTable}
    (h : ∀ r f, t.field? r = some f → f.initialized = true) : t.filled = t := by
  refine ClassTable.ext (Array.ext_getElem? fun c => ?_) rfl
  rw [filled, map, Array.getElem?_map]
  cases hk : t.classes[c]? with
  | none => rfl
  | some k =>
    have fields : k.fields.map Field.filled = k.fields.map id := by
      apply List.map_congr_left
      intro f hf
      obtain ⟨i, hi⟩ := List.mem_iff_getElem?.mp hf
      have here : t.field? ⟨c, i⟩ = some f := by
        simp only [field?, ClassTable.fields, get?, hk, Option.map_some, Option.getD_some, hi]
      have mark := h ⟨c, i⟩ f here
      rw [Field.filled, ← mark, id]
    rw [Option.map_some, Class.filled, fields, List.map_id]

section Change
variable (t : ClassTable)

theorem filled_modify (c : ClassId) {f g : Class → Class}
    (h : ∀ k, (f k).filled = g k.filled) : (t.modify c f).filled = t.filled.modify c g :=
  map_modify _ t c fun k _ => h k

theorem filled_modifyMethod (r : MethodRef) (f : Method → Method) :
    (t.modifyMethod r f).filled = t.filled.modifyMethod r f :=
  filled_modify t r.cls fun _ => rfl

theorem filled_modifyField (r : FieldRef) {f : Field → Field}
    (h : ∀ k, (f k).filled = f k.filled) :
    (t.modifyField r f).filled = t.filled.modifyField r f := by
  apply filled_modify
  intro k
  simp only [Class.filled, map_modify_comm h]

end Change

end ClassTable

namespace Check

/-- A mark is set in the same place. -/
theorem markInitialized_filled (t : ClassTable) (p : Place) (v : VarRef) :
    markInitialized t.filled p v = (markInitialized t p v).filled := by
  cases v with
  | loc i =>
    rw [markInitialized, markInitialized, markLocal, markLocal]
    cases p.method with
    | none =>
      let f (c : Class) : Class :=
        { c with entry := c.entry.map fun e => { e with locals := e.locals.modify i setInit } }
      exact (t.filled_modify p.cls (f := f) (g := f) fun _ => rfl).symm
    | some r => exact (t.filled_modifyMethod r _).symm
  | field r => exact (t.filled_modifyField r fun _ => rfl).symm

section Declarations
variable (t : ClassTable)

theorem checkTy_filled (line : Nat) (ty : Ty) : checkTy t.filled line ty = checkTy t line ty := by
  cases ty with
  | object name => simp only [checkTy, ClassTable.find?_filled, ClassTable.names_filled]
  | _ => rfl

theorem checkTys_filled (ds : List VarDecl) : checkTys t.filled ds = checkTys t ds := by
  induction ds with
  | nil => rfl
  | cons d ds ih => simp only [checkTys, checkTy_filled, ih]

theorem keepLocals_filled (method : Name) (taken : List Name) (initialized : Bool)
    (kept : List Local) (ds : List VarDecl) :
    keepLocals t.filled method taken initialized kept ds =
      keepLocals t method taken initialized kept ds := by
  induction ds generalizing kept with
  | nil => rfl
  | cons d ds ih => simp only [keepLocals, checkTy_filled, ih]

theorem methodLocals_filled (m : MethodDecl .registered) :
    methodLocals t.filled m = methodLocals t m := by
  simp only [methodLocals, checkTy_filled, keepLocals_filled]

theorem declareMethods_filled (ms : List (MethodDecl .registered)) :
    declareMethods t.filled ms =
      ⟨(declareMethods t ms).value.filled, (declareMethods t ms).findings⟩ := by
  induction ms generalizing t with
  | nil => rfl
  | cons m ms ih =>
    rw [declareMethods, declareMethods]
    cases m.note with
    | none => exact ih t
    | some ref =>
      dsimp only
      rw [Found.bind_eq, Found.bind_eq, methodLocals_filled, ← t.filled_modifyMethod, ih]

theorem initFields_filled (strict : Bool) (k : Class) :
    (initFields strict k).filled = initFields false k.filled := by
  simp only [initFields, Class.filled, List.map_map]
  rfl

/-- What strict mode declares, with every field marked, is what the other mode declares. -/
theorem declareClass_filled (strict : Bool) (d : ClassDecl .registered) :
    declareClass false t.filled d =
      ⟨(declareClass strict t d).value.filled, (declareClass strict t d).findings⟩ := by
  rw [declareClass, declareClass]
  cases d.note with
  | none => rfl
  | some id =>
    have marked := t.filled_modify id (initFields_filled strict)
    dsimp only
    rw [Found.bind_eq, Found.bind_eq, checkTys_filled, ← marked, declareMethods_filled]

theorem declareClasses_filled (strict : Bool) (r : Report) (ds : List (ClassDecl .registered)) :
    declareClasses false t.filled r ds =
      Prod.map ClassTable.filled id (declareClasses strict t r ds) := by
  induction ds generalizing t r with
  | nil => rfl
  | cons d ds ih =>
    rw [declareClasses, declareClasses]
    by_cases full : r.full = true
    · rw [if_pos full, if_pos full]
      rfl
    · rw [if_neg full, if_neg full, declareClass_filled t strict]
      exact ih _ _

theorem declareMain_filled (m : MainClass .registered) :
    declareMain t.filled m = ⟨(declareMain t m).value.filled, (declareMain t m).findings⟩ := by
  let enter (locals : List Local) (c : Class) : Class :=
    { c with entry := c.entry.map fun e => { e with locals } }
  have entered := fun locals => t.filled_modify 0 (f := enter locals) (g := enter locals)
    fun _ => rfl
  rw [declareMain, declareMain, keepLocals_filled, Found.bind_eq, Found.bind_eq]
  exact congrArg (Found.mk · _) (entered _).symm

end Declarations

theorem declarations_filled (strict : Bool) (q : Program .registered) (t : ClassTable)
    (r : Report) :
    declarations false q t.filled r =
      Prod.map ClassTable.filled id (declarations strict q t r) := by
  rw [declarations, declarations, declareMain_filled]
  exact declareClasses_filled _ strict _ _

theorem checkClasses_filled (t : ClassTable) (cs : List Class) :
    checkClasses t.filled (cs.map Class.filled) = checkClasses t cs := by
  have override : ∀ parent m, checkOverride t.filled parent m = checkOverride t parent m := by
    intro parent m
    simp only [checkOverride, ClassTable.findMethod?_filled, ClassTable.method?_filled,
      ClassTable.nameOf_filled]
  have methods : ∀ parent ms, checkMethods t.filled parent ms = checkMethods t parent ms := by
    intro parent ms
    induction ms with
    | nil => rfl
    | cons m ms ih => rw [checkMethods, override, ih, checkMethods]
  induction cs with
  | nil => rfl
  | cons c cs ih =>
    simp only [List.map_cons, checkClasses, ih, methods]
    rfl

theorem overrides_filled (t : ClassTable) (r : Report) : overrides t.filled r = overrides t r := by
  have classes : t.filled.classes.toList = t.classes.toList.map Class.filled := Array.toList_map
  rw [overrides, classes, checkClasses_filled, overrides]

/-- A state in which every field counts as initialized. -/
def State.filled (st : State) : State := ⟨st.table.filled, st.report⟩

section Modes
variable (q : Program .registered) (t : ClassTable) (r : Report)

/-- Both modes report the same of the declarations, and declare the same but for the marks. -/
theorem declarations_alike :
    (declarations false q t r).1.filled = (declarations true q t r).1.filled ∧
      (declarations false q t r).2 = (declarations true q t r).2 := by
  have plain := declarations_filled false q t r
  have strict := declarations_filled true q t r
  exact Prod.mk.inj (plain.symm.trans strict)

theorem overrides_alike :
    overrides (declarations false q t r).1 = overrides (declarations true q t r).1 := by
  funext r'
  rw [← overrides_filled, (declarations_alike q t r).1, overrides_filled]

end Modes

/-- A program that is rejected before the body pass is rejected alike in both modes. -/
theorem check_eq_of_not_ready {p : Program .bare} (h : ready? ⟨none, true⟩ p = none) :
    check ⟨none, false⟩ p = check ⟨none, true⟩ p := by
  simp only [ready?, ite_eq_right_iff, reduceCtorEq, imp_false, Bool.and_eq_true, not_and] at h
  dsimp only [check]
  rw [(declarations_alike _ _ _).2, overrides_alike]
  split
  · rename_i clean
    split
    · rename_i clean'
      rw [if_neg (h ⟨clean, clean'⟩), if_neg (h ⟨clean, clean'⟩)]
    · rfl
  · rfl

theorem ready?_alike (p : Program .bare) :
    (ready? ⟨none, false⟩ p).map (Prod.map id State.filled) =
      (ready? ⟨none, true⟩ p).map (Prod.map id State.filled) := by
  simp only [ready?, (declarations_alike _ _ _).2, overrides_alike]
  split
  · simp only [Option.map_some, Prod.map, State.filled, (declarations_alike _ _ _).1]
  · rfl

/-- Without strict mode the body pass starts with the same program and the same report, and with
every field marked. -/
theorem ready?_plain (p : Program .bare) :
    ready? ⟨none, false⟩ p = (ready? ⟨none, true⟩ p).map (Prod.map id State.filled) := by
  rw [← ready?_alike]
  cases ready : ready? ⟨none, false⟩ p with
  | none => rfl
  | some start =>
    obtain ⟨q, st⟩ := start
    have known := ready_of_ready? unlimited_ne ready
    have marked : st.table.filled = st.table := by
      apply ClassTable.filled_eq_self
      intro r f hf
      exact (mirrors_of_ready? ready).1.initialized_of_field? known.wellFormed hf
    rw [Option.map_some, Prod.map, State.filled, marked, id]

end Check

end MiniJava
