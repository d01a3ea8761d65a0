import MiniJava.Proofs.Strict.Table
import MiniJava.Proofs.Traversal

/-!
# The body pass with every field marked

A mark decides about one kind of finding only. So where every field is marked, every expression gets
the note that it gets anyway, every step marks the target that it marks anyway, and what is found is
what is found anyway, less the fields that were read too early.
-/
namespace MiniJava

namespace Check.Scope
variable (s : Scope)

/-- The same place in the class table with a mark on every field. -/
def filled : Scope := ⟨s.table.filled, s.place⟩

/-- A finding says that a variable might not have been initialized, and the variable is a field. -/
def blamesField (f : Finding) : Bool :=
  match f.error with
  | .uninitialized x =>
    match s.denotes? x with
    | some (.field _) => true
    | _ => false
  | _ => false

/-- A finding that is made although every field is marked. -/
def keeps (f : Finding) : Bool := !s.blamesField f

theorem keeps_of_fault {f : Finding} (h : Typing.Fault f.error) : s.keeps f = true := by
  rw [keeps, blamesField]
  split
  · rename_i x hx
    exact absurd hx (h x)
  · rfl

end Check.Scope

namespace Found
variable {α β : Type} (keep : Finding → Bool)

/-- The same value, and some of the findings. -/
def keeping (x : Found α) : Found α := ⟨x.value, x.findings.filter keep⟩

@[simp] theorem value_keeping (x : Found α) : (x.keeping keep).value = x.value := rfl

@[simp] theorem findings_keeping (x : Found α) :
    (x.keeping keep).findings = x.findings.filter keep := rfl

@[simp] theorem keeping_pure (a : α) : (pure a : Found α).keeping keep = pure a := rfl

theorem keeping_bind (x : Found α) (f : α → Found β) :
    (x >>= f).keeping keep = x.keeping keep >>= fun a => (f a).keeping keep := by
  simp only [bind_eq, keeping, List.filter_append]

/-- What follows is given one value only. -/
theorem bind_congr_value {x : Found α} {f g : α → Found β} (h : f x.value = g x.value) :
    x >>= f = x >>= g := by
  rw [bind_eq, bind_eq, h]

end Found

namespace Check

/-- No fault is dropped. -/
theorem keeping_of_faults {α : Type} (s : Scope) {x : Found α} (h : Faults x.findings) :
    x.keeping s.keeps = x := by
  have all : x.findings.filter s.keeps = x.findings :=
    List.filter_eq_self.mpr fun f hf => s.keeps_of_fault (h f hf)
  rw [Found.keeping, all]

namespace Scope
variable (s : Scope)

theorem locals_filled : s.filled.locals = s.locals := by
  simp only [locals, filled, entry?, ClassTable.entry_filled, ClassTable.method?_filled]

theorem isMainParam_filled (x : Name) : s.filled.isMainParam x = s.isMainParam x := by
  simp only [isMainParam, filled, entry?, ClassTable.entry_filled]

theorem visibleNames_filled : s.filled.visibleNames = s.visibleNames := by
  have fields : s.table.filled.visibleFields s.place.cls =
      (s.table.visibleFields s.place.cls).map Field.filled :=
    Class.unseen_filled.visibleFields_map s.table s.place.cls
  rw [visibleNames, locals_filled, filled, fields, List.map_map]
  rfl

theorem resolve_filled (line : Nat) (x : Name) : s.filled.resolve line x = s.resolve line x := by
  have fieldTy : ∀ r, (s.table.filled.field? r).map (·.ty) = (s.table.field? r).map (·.ty) := by
    intro r
    rw [ClassTable.field?_filled, Option.map_map]
    rfl
  rw [resolve, resolve, locals_filled, isMainParam_filled, visibleNames_filled]
  simp only [filled, ClassTable.findField?_filled, fieldTy]

theorem instantiate_filled (line : Nat) (x : Name) :
    s.filled.instantiate line x = s.instantiate line x := by
  simp only [instantiate, filled, ClassTable.find?_filled, ClassTable.names_filled,
    ClassTable.isMain_filled]

theorem callee_filled (line : Nat) (ty : Ty) (m : Name) :
    s.filled.callee line ty m = s.callee line ty m := by
  simp only [callee, filled, funext s.table.find?_filled, ClassTable.findMethod?_filled,
    ClassTable.visibleMethods_filled, ClassTable.method?_filled]

/-- The one place where a mark is read: no field is reported if all are marked. -/
theorem checkInitialized_filled {line : Nat} {x : Name} {v : VarRef} {ty : Ty}
    (resolved : (s.resolve line x).value = some (v, ty)) :
    s.filled.checkInitialized line x v = (s.checkInitialized line x v).keeping s.keeps := by
  have meaning := denotes?_of_resolve resolved
  cases v with
  | loc i =>
    have same : s.filled.isInitialized (.loc i) = s.isInitialized (.loc i) := by
      rw [isInitialized, locals_filled, isInitialized]
    have kept : s.keeps ⟨line, .uninitialized x⟩ = true := by
      simp only [keeps, blamesField, meaning, Place.variable, Bool.not_false]
    rw [checkInitialized, checkInitialized, same]
    split
    · rfl
    · simp [report, Found.keeping, kept]
  | field r =>
    have marked : s.filled.isInitialized (.field r) = true := by
      obtain ⟨f, hf⟩ := exists_field_of_denotes? meaning
      rw [isInitialized, filled, ClassTable.field?_filled, hf]
      rfl
    have dropped : s.keeps ⟨line, .uninitialized x⟩ = false := by
      simp only [keeps, blamesField, meaning, Place.variable, Bool.not_true]
    rw [checkInitialized, checkInitialized, if_pos marked]
    split
    · rfl
    · simp [report, Found.keeping, dropped, Found.of]

end Scope

theorem checkArg_filled (s : Scope) (line : Nat) (m : Name) (position : Nat) (ty : Ty)
    (arg : Expr Note) :
    checkArg s.filled line m position ty arg = checkArg s line m position ty arg := by
  simp only [checkArg, Scope.filled, ClassTable.assignable_filled]

section Expressions
variable (s : Scope)

theorem keeping_expect (line : Nat) (e : Expr Note) (ty : Ty) (error : Ty → SemanticError)
    (fault : ∀ ty, Typing.Fault (error ty)) :
    (expect line e ty error).keeping s.keeps = expect line e ty error :=
  keeping_of_faults s (expect_faults line e ty fault)

mutual

/-- An expression gets the same notes, and fewer findings. -/
theorem typeExpr_filled : ∀ e : Expr Unit,
    typeExpr s.filled e = (typeExpr s e).keeping s.keeps
  | .node line _ form => by
    rw [typeExpr, typeExpr, Found.keeping_bind, typeForm_filled line form]
    rfl

theorem typeForm_filled (line : Nat) : ∀ form : ExprForm Unit,
    typeForm s.filled line form = (typeForm s line form).keeping s.keeps
  | .binary op a b => by
    have rule := fun a b => keeping_of_faults s (typeBinary_faults line op a b)
    simp only [typeForm, Found.keeping_bind, Found.keeping_pure, typeExpr_filled a,
      typeExpr_filled b, rule]
  | .not e => by
    have rule := fun e => keeping_expect s line e .boolean .invalidNotOperand
      fun ty x => by simp
    simp only [typeForm, Found.keeping_bind, Found.keeping_pure, typeExpr_filled e, rule]
  | .lookup a i => by
    have rule := fun e => keeping_of_faults s (elementTy_faults line e)
    have rule' := fun e => keeping_expect s line e .int .indexMustBeInt
      fun ty x => by simp
    rw [typeForm, typeForm, Found.keeping_bind, typeExpr_filled a]
    refine bind_congr fun a => ?_
    rw [Found.keeping_bind, rule]
    refine bind_congr fun ty => ?_
    cases ty with
    | none => rfl
    | some ty =>
      simp only [Found.keeping_bind, Found.keeping_pure, typeExpr_filled i, rule']
  | .length a => by
    have rule := fun e => keeping_of_faults s (elementTy_faults line e)
    simp only [typeForm, Found.keeping_bind, Found.keeping_pure, typeExpr_filled a, rule]
  | .send r m args => by
    have rule := fun ty => keeping_of_faults s (callee_faults s line ty m)
    rw [typeForm, typeForm, Found.keeping_bind, typeExpr_filled r]
    refine bind_congr fun r => ?_
    cases r.note with
    | none => rfl
    | some info =>
      dsimp only
      rw [Found.keeping_bind, rule, Scope.callee_filled]
      refine bind_congr fun found => ?_
      cases found with
      | none => rfl
      | some found =>
        obtain ⟨ref, k⟩ := found
        dsimp only
        by_cases len : k.paramTys.length = args.length
        · simp only [if_pos len, Found.keeping_bind, Found.keeping_pure,
            typeArgs_filled line m 1 k.paramTys args]
        · have fault : Faults (report line
              (.argCountMismatch m k.paramTys.length args.length)).findings := by
            simp [Typing.Fault]
          simp only [if_neg len, Found.keeping_bind, Found.keeping_pure,
            keeping_of_faults s fault]
  | .int _ => rfl
  | .tt => rfl
  | .ff => rfl
  | .name x => by
    rw [typeForm, typeForm, Found.keeping_bind, Scope.resolve_filled,
      keeping_of_faults s (resolve_faults s line x)]
    -- the mark that is read next is that of the variable that was found
    refine Found.bind_congr_value ?_
    cases resolved : (s.resolve line x).value with
    | none => rfl
    | some found =>
      obtain ⟨v, ty⟩ := found
      dsimp only
      rw [Found.keeping_bind, s.checkInitialized_filled resolved]
      rfl
  | .this => by
    have fault : Faults (report line .thisInMain).findings := by simp [Typing.Fault]
    rw [typeForm, typeForm]
    simp only [Scope.filled, ClassTable.nameOf_filled]
    cases s.place.method with
    | none =>
      simp only [Found.keeping_bind, Found.keeping_pure, keeping_of_faults s fault]
    | some _ => rfl
  | .newIntArray n => by
    have rule := fun e => keeping_expect s line e .int .arraySizeMustBeInt
      fun ty x => by simp
    simp only [typeForm, Found.keeping_bind, Found.keeping_pure, typeExpr_filled n, rule]
  | .newBooleanArray n => by
    have rule := fun e => keeping_expect s line e .int .arraySizeMustBeInt
      fun ty x => by simp
    simp only [typeForm, Found.keeping_bind, Found.keeping_pure, typeExpr_filled n, rule]
  | .newObject x => by
    simp only [typeForm, Found.keeping_bind, Found.keeping_pure, Scope.instantiate_filled,
      keeping_of_faults s (instantiate_faults s line x)]
  | .bracket e => by
    simp only [typeForm, Found.keeping_bind, Found.keeping_pure, typeExpr_filled e]

theorem typeArgs_filled (line : Nat) (m : Name) (position : Nat) (tys : List Ty) :
    ∀ es : List (Expr Unit), typeArgs s.filled line m position tys es =
      (typeArgs s line m position tys es).keeping s.keeps
  | [] => rfl
  | e :: es => by
    have rule := fun e => keeping_of_faults s (checkArg_faults s line m position (tys.headD .int) e)
    simp only [typeArgs, Found.keeping_bind, Found.keeping_pure, typeExpr_filled e,
      checkArg_filled, rule, typeArgs_filled line m (position + 1) tys.tail es]

end

end Expressions

theorem checkStored_filled (t : ClassTable) (line : Nat) (ty : Ty) (value : Expr Note) :
    checkStored t.filled line ty value = checkStored t line ty value := by
  simp only [checkStored, ClassTable.assignable_filled]

theorem checkReturned_filled (t : ClassTable) (ref : MethodRef) (value : Expr Note) :
    checkReturned t.filled ref value = checkReturned t ref value := by
  simp only [checkReturned, ClassTable.assignable_filled, ClassTable.method?_filled]

theorem checkArrayAssign_filled (s : Scope) (line : Nat) (x : Name) (index value : Expr Unit) :
    checkArrayAssign s.filled line x index value =
      (checkArrayAssign s line x index value).keeping s.keeps := by
  have rule := fun e => keeping_expect s line e .int .indexMustBeInt
    fun ty x => by simp
  rw [checkArrayAssign, checkArrayAssign, Found.keeping_bind, Scope.resolve_filled,
    keeping_of_faults s (resolve_faults s line x)]
  refine Found.bind_congr_value ?_
  cases resolved : (s.resolve line x).value with
  | none => rfl
  | some found =>
    obtain ⟨v, ty⟩ := found
    dsimp only
    rw [Found.keeping_bind, s.checkInitialized_filled resolved]
    refine bind_congr fun _ => ?_
    cases ty.element? with
    | none =>
      have fault : Faults (report line (.notAnArray ty)).findings := by simp [Typing.Fault]
      simp only [Found.keeping_bind, Found.keeping_pure, keeping_of_faults s fault]
    | some element =>
      have rule' := fun e => keeping_expect s line e element
        (.incompatibleTypes element) fun ty x => by simp
      dsimp only
      rw [Found.keeping_bind, typeExpr_filled]
      refine bind_congr fun index => ?_
      rw [Found.keeping_bind, rule]
      refine bind_congr fun fits => ?_
      split
      · simp only [Found.keeping_bind, Found.keeping_pure, typeExpr_filled, rule']
      · rfl

theorem assignment_filled (t : ClassTable) (p : Place) (line : Nat) (x : Name)
    (value : Expr Unit) :
    Typing.assignment t.filled p line x value =
      (Typing.assignment t p line x value).keeping (Scope.keeps ⟨t, p⟩) := by
  have target := Scope.resolve_filled ⟨t, p⟩ line x
  have rule := keeping_of_faults ⟨t, p⟩ (resolve_faults ⟨t, p⟩ line x)
  have rule' := fun ty e => keeping_of_faults ⟨t, p⟩ (checkStored_faults line t ty e)
  rw [Typing.assignment, Typing.assignment, Found.keeping_bind]
  refine (congrArg (· >>= _) (typeExpr_filled ⟨t, p⟩ value)).trans ?_
  refine bind_congr fun value => ?_
  rw [Found.keeping_bind, rule]
  refine (congrArg (· >>= _) target).trans ?_
  refine bind_congr fun found => ?_
  cases found with
  | none => rfl
  | some found =>
    simp only [Found.keeping_bind, Found.keeping_pure, checkStored_filled, rule']

/-- A step marks the same target, and reports less. -/
theorem lookUp_filled (p : Place) (t : ClassTable) (s : Step Unit) :
    lookUp p t.filled s = (lookUp p t s).keeping (Scope.keeps ⟨t, p⟩) := by
  have typed : ∀ e, typeExpr ⟨t.filled, p⟩ e =
      (typeExpr ⟨t, p⟩ e).keeping (Scope.keeps ⟨t, p⟩) := typeExpr_filled ⟨t, p⟩
  cases s with
  | block line => rfl
  | assign line x value =>
    simp only [lookUp, Found.keeping_bind, Found.keeping_pure, assignment_filled]
  | arrayAssign line x index value =>
    have stored := checkArrayAssign_filled ⟨t, p⟩ line x index value
    rw [Scope.filled] at stored
    simp only [lookUp, Found.keeping_bind, Found.keeping_pure, stored]
  | condition line cond =>
    have rule := fun e => keeping_expect ⟨t, p⟩ line e .boolean
      .conditionMustBeBoolean fun ty x => by simp
    simp only [lookUp, Found.keeping_bind, Found.keeping_pure, typed, rule]
  | print line value =>
    have rule := fun e => keeping_expect ⟨t, p⟩ line e .int .printRequiresInt
      fun ty x => by simp
    simp only [lookUp, Found.keeping_bind, Found.keeping_pure, typed, rule]
  | result value =>
    obtain ⟨cls, _ | ref⟩ := p
    · simp only [lookUp, Found.keeping_bind, Found.keeping_pure, typed]
    · have rule := fun e => keeping_of_faults ⟨t, ⟨cls, some ref⟩⟩ (checkReturned_faults t ref e)
      simp only [lookUp, Found.keeping_bind, Found.keeping_pure, typed, checkReturned_filled, rule]

end Check

open Check

namespace Visit

theorem findings_filled (v : Visit) (t : ClassTable) :
    v.findings t.filled = (v.findings t).filter (Scope.keeps ⟨t, v.place⟩) := by
  rw [findings_eq, lookUp_filled, Found.findings_keeping, findings_eq]

theorem after_filled (t : ClassTable) (v : Visit) : v.after t.filled = (v.after t).filled := by
  rw [after_eq, lookUp_filled, Found.value_keeping, after_eq]
  cases (lookUp v.place t v.step).value with
  | none => rfl
  | some target => exact markInitialized_filled t v.place target

end Visit

namespace Check

/-- Without a limit, a computation of the body pass comes to the same if every field is marked, and
leaves the same class table with every field marked. -/
structure Blind {α : Type} (x : CheckM α) : Prop where
  value : ∀ t r r', r.limit = none → r'.limit = none → (x ⟨t.filled, r'⟩).1 = (x ⟨t, r⟩).1
  table : ∀ t r r', r.limit = none → r'.limit = none →
    (x ⟨t.filled, r'⟩).2.table = (x ⟨t, r⟩).2.table.filled
  limit : ∀ st, (x st).2.report.limit = st.report.limit

namespace Blind
variable {α β : Type}

theorem pure (a : α) : Blind (Pure.pure a : CheckM α) :=
  ⟨fun _ _ _ _ _ => rfl, fun _ _ _ _ _ => rfl, fun _ => rfl⟩

theorem bind {x : CheckM α} {f : α → CheckM β} (hx : Blind x) (hf : ∀ a, Blind (f a)) :
    Blind (x >>= f) := by
  have first : ∀ t r r', r.limit = none → r'.limit = none → (x >>= f) ⟨t.filled, r'⟩ =
      f (x ⟨t, r⟩).1 ⟨(x ⟨t, r⟩).2.table.filled, (x ⟨t.filled, r'⟩).2.report⟩ := by
    intro t r r' h h'
    change f (x ⟨t.filled, r'⟩).1 (x ⟨t.filled, r'⟩).2 = _
    rw [← hx.table t r r' h h', hx.value t r r' h h']
  have kept := fun st (h : st.report.limit = none) => (hx.limit st).trans h
  constructor
  · intro t r r' h h'
    rw [first t r r' h h']
    exact (hf _).value _ _ _ (kept ⟨t, r⟩ h) (kept ⟨t.filled, r'⟩ h')
  · intro t r r' h h'
    rw [first t r r' h h']
    exact (hf _).table _ _ _ (kept ⟨t, r⟩ h) (kept ⟨t.filled, r'⟩ h')
  · exact fun st => ((hf _).limit _).trans (hx.limit st)

theorem take {find : ClassTable → Found α} (h : ∀ t, (find t.filled).value = (find t).value) :
    Blind (take find) :=
  ⟨fun t _ _ _ _ => h t, fun _ _ _ _ _ => rfl, fun _ => Report.limit_addAll ..⟩

theorem ifFull {x : CheckM α} (a : α) (hx : Blind x) :
    Blind (do if ← isFull then return a else x) := by
  constructor
  · intro t r r' h h'
    rw [ifFull_of_unlimited x a ⟨t, r⟩ h, ifFull_of_unlimited x a ⟨t.filled, r'⟩ h']
    exact hx.value t r r' h h'
  · intro t r r' h h'
    rw [ifFull_of_unlimited x a ⟨t, r⟩ h, ifFull_of_unlimited x a ⟨t.filled, r'⟩ h']
    exact hx.table t r r' h h'
  · intro st
    rw [ifFull_apply]
    split
    · rfl
    · exact hx.limit st

end Blind

theorem value_typeExpr_filled (t : ClassTable) (p : Place) (e : Expr Unit) :
    (typeExpr ⟨t.filled, p⟩ e).value = (typeExpr ⟨t, p⟩ e).value :=
  (congrArg Found.value (typeExpr_filled ⟨t, p⟩ e)).trans (Found.value_keeping _ _)

theorem passes_blind : Passes Blind where
  pure := .pure
  bind := .bind
  ifFull := .ifFull
  mark p v := ⟨fun _ _ _ _ _ => rfl, fun t _ _ _ _ => markInitialized_filled t p v, fun _ => rfl⟩
  typeIn p e := .take fun t => value_typeExpr_filled t p e
  cond p line e := .take fun t => by
    rw [Found.value_bind, Found.value_bind, value_typeExpr_filled]
    rfl
  resolve p line x := .take fun t => congrArg Found.value (Scope.resolve_filled ⟨t, p⟩ line x)
  stored line ty value := .take fun t => congrArg Found.value (checkStored_filled t line ty value)
  arrayAssign p line x index value := .take fun t =>
    (congrArg Found.value (checkArrayAssign_filled ⟨t, p⟩ line x index value)).trans
      (Found.value_keeping _ _)
  printed line value := .take fun _ => rfl
  result p ref e := .take fun t => by
    rw [Found.value_bind, Found.value_bind, value_typeExpr_filled]
    simp only [ClassTable.method?_filled, ClassTable.assignable_filled]

/-- The body pass leaves the same notes on a program, and the same marks on locals. -/
theorem bodies_blind (q : Program .registered) : Blind (bodies q) := passes_blind.bodies q

end Check

end MiniJava
