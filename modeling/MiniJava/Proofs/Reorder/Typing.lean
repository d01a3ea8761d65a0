import Mathlib.Data.List.Basic
import MiniJava.Proofs.Reorder.Table
import MiniJava.Proofs.Typing.Lookup

/-!
# Typing under other class numbers

An expression is typed at two places of two tables that differ in the numbers of the classes. If
nothing is found at the one, nothing is found at the other, and all types and references are the same
but for the numbers. Findings are not compared: what they suggest may depend on the order of classes.
-/
namespace MiniJava

section Moved
variable (σ : ClassId → ClassId)

def VarRef.moved : VarRef → VarRef
  | .loc i => .loc i
  | .field r => .field (r.moved σ)

def Ref.moved : Ref → Ref
  | .var v => .var (v.moved σ)
  | .method r => .method (r.moved σ)
  | .cls c => .cls (σ c)

/-- The same type, with another number for what is referred to. -/
def ExprInfo.moved (i : ExprInfo) : ExprInfo := { i with ref := i.ref.map (Ref.moved σ) }

def Check.Place.moved (p : Place) : Place := ⟨σ p.cls, p.method.map (MethodRef.moved σ)⟩

open Check

/-- An expression with other numbers in all its notes. -/
def Expr.moved (e : Expr Note) : Expr Note := e.map (Option.map (ExprInfo.moved σ))

def ExprForm.moved (form : ExprForm Note) : ExprForm Note :=
  form.map (Option.map (ExprInfo.moved σ))

def movedArgs (es : List (Expr Note)) : List (Expr Note) :=
  mapArgs (Option.map (ExprInfo.moved σ)) es

theorem Expr.note_moved (e : Expr Note) : (e.moved σ).note = e.note.map (ExprInfo.moved σ) := by
  cases e
  rfl

theorem Check.blank_moved (e : Expr Unit) : (blank e).moved σ = blank e := Expr.map_map _ _ e

theorem Check.blankArgs_moved (es : List (Expr Unit)) :
    movedArgs σ (blankArgs es) = blankArgs es := mapArgs_mapArgs _ _ es

theorem Check.noteIf_moved (ok : Bool) (ty : Ty) (ref : Option Ref) :
    (noteIf ok ty ref).map (ExprInfo.moved σ) = noteIf ok ty (ref.map (Ref.moved σ)) := by
  cases ok <;> rfl

end Moved

namespace Found
variable {α β γ δ : Type}

/-- If the first computation finds nothing, neither does the second one, and its value is that of
the first one under `f`. -/
def Transfers (f : α → β) (x : Found α) (y : Found β) : Prop :=
  x.findings = [] → y = ⟨f x.value, []⟩

namespace Transfers

theorem refl (x : Found α) : Transfers id x x := fun clean => congrArg (mk x.value) clean

theorem of (f : α → β) (a : α) : Transfers f (Found.of a) (Found.of (f a)) := fun _ => rfl

theorem pure (f : α → β) (a : α) : Transfers f (Pure.pure a) (Pure.pure (f a)) := fun _ => rfl

theorem value {f : α → β} {a : α} {b : β} (same : b = f a) :
    Transfers f (Pure.pure a) (Pure.pure b) := fun _ => congrArg Found.of same

/-- Where something is found nothing is claimed. -/
theorem fault {f : α → β} {line : Nat} {e : SemanticError} {k : Unit → Found α} {y : Found β} :
    Transfers f (report line e >>= k) y := fun clean => nomatch clean

theorem bind_value {x : Found α} {y : Found β} {g : γ → δ} {k : α → Found γ} {l : β → Found δ}
    (h : x.findings = [] → y.findings = [] ∧ Transfers g (k x.value) (l y.value)) :
    Transfers g (x >>= k) (y >>= l) := by
  intro clean
  obtain ⟨first, rest⟩ := List.append_eq_nil_iff.mp clean
  obtain ⟨first', same⟩ := h first
  rw [bind_eq, first', same rest]
  rfl

theorem bind {f : α → β} {x : Found α} {y : Found β} (h : Transfers f x y) {g : γ → δ}
    {k : α → Found γ} {l : β → Found δ} (h' : ∀ a, Transfers g (k a) (l (f a))) :
    Transfers g (x >>= k) (y >>= l) := by
  refine bind_value fun clean => ?_
  rw [h clean]
  exact ⟨rfl, h' x.value⟩

/-- The same computation, and then values that correspond. -/
theorem after (x : Found α) {g : γ → δ} {k : α → Found γ} {l : α → Found δ}
    (h : ∀ a, Transfers g (k a) (l a)) : Transfers g (x >>= k) (x >>= l) :=
  bind_value fun clean => ⟨clean, h x.value⟩

end Transfers

end Found

namespace Check

open ClassTable Found

variable {σ : Equiv.Perm ClassId} {t u : ClassTable}

/-- Two well-formed tables that are the same but for the numbers, where no field has to be assigned
before it is read. -/
structure Twins (σ : Equiv.Perm ClassId) (t u : ClassTable) : Prop where
  renumbered : Renumbered σ t u
  wf : t.WellFormed
  wf' : u.WellFormed
  initialized : ∀ c, ∀ f ∈ t.fields c, f.initialized = true

/-- One place in two tables that have, but for marks, the classes of `t` and those of `u`. The marks
of fields and of the locals there are the same. -/
structure Counterpart (σ : Equiv.Perm ClassId) (t u : ClassTable) (s s' : Scope) : Prop where
  left : SameDeclarations s.table t
  right : SameDeclarations s'.table u
  place : s'.place = s.place.moved σ
  locals : s'.locals = s.locals
  field? : ∀ r, s'.table.field? (r.moved σ) = s.table.field? r

namespace Counterpart
variable {s s' : Scope} (h : Counterpart σ t u s s') (twins : Twins σ t u)
include h twins

theorem find? (n : Name) : s'.table.find? n = (s.table.find? n).map σ := by
  rw [h.right.outline.find?, twins.renumbered.lookups.find? twins.wf twins.wf',
    h.left.outline.find?]

theorem isMain (c : ClassId) : s'.table.isMain (σ c) = s.table.isMain c := by
  rw [h.right.outline.isMain, twins.renumbered.lookups.isMain, h.left.outline.isMain]

theorem nameOf (c : ClassId) : s'.table.nameOf (σ c) = s.table.nameOf c := by
  rw [h.right.outline.nameOf, twins.renumbered.lookups.nameOf, h.left.outline.nameOf]

theorem findField? (c : ClassId) (x : Name) :
    s'.table.findField? (σ c) x = (s.table.findField? c x).map (FieldRef.moved σ) := by
  rw [h.right.outline.findField?,
    twins.renumbered.lookups.findField? twins.wf.forest twins.wf'.forest, h.left.outline.findField?]

theorem findMethod? (c : ClassId) (m : Name) :
    s'.table.findMethod? (σ c) m = (s.table.findMethod? c m).map (MethodRef.moved σ) := by
  rw [h.right.outline.findMethod?,
    twins.renumbered.lookups.findMethod? twins.wf.forest twins.wf'.forest,
    h.left.outline.findMethod?]

/-- What a method takes and returns is the same. -/
theorem exists_method? {r : MethodRef} {m : Method} (hm : s.table.method? r = some m) :
    ∃ m', s'.table.method? (r.moved σ) = some m' ∧ m'.paramTys = m.paramTys ∧
      m'.returnTy = m.returnTy := by
  obtain ⟨k, hk, same⟩ := h.left.exists_method? hm
  have there : u.method? (r.moved σ) = some (k.moved σ) := by
    rw [twins.renumbered.lookups.method?, hk, Option.map_some]
  obtain ⟨m', hm', same'⟩ := h.right.symm.exists_method? there
  have paramTys : k.paramTys = m.paramTys := Method.paramTys_eq_of_declared same
  have returnTy : k.declared.returnTy = m.declared.returnTy := by rw [same]
  have returnTy' : m'.declared.returnTy = (k.moved σ).declared.returnTy := by rw [same']
  exact ⟨m', hm', (Method.paramTys_eq_of_declared same').trans paramTys, returnTy'.trans returnTy⟩

theorem chain (c : ClassId) : s'.table.chain (σ c) = (s.table.chain c).map σ := by
  rw [h.right.outline.chain, twins.renumbered.lookups.chain twins.wf.forest twins.wf'.forest,
    h.left.outline.chain]

theorem assignable (target source : Ty) :
    s'.table.assignable target source = s.table.assignable target source := by
  have subclass : ∀ sub sup, s'.table.isSubclass (σ sub) (σ sup) = s.table.isSubclass sub sup := by
    intro sub sup
    rw [Bool.eq_iff_iff, isSubclass, h.chain twins, isSubclass, List.contains_iff_mem,
      List.contains_iff_mem, List.mem_map_of_injective σ.injective]
  unfold ClassTable.assignable
  split
  · rename_i a b
    rw [h.find? twins, h.find? twins]
    cases s.table.find? a <;> cases s.table.find? b <;> first | rfl | exact subclass _ _
  · rfl

theorem isMainParam (x : Name) : s'.isMainParam x = s.isMainParam x := by
  have entry : s'.entry?.map EntryPoint.declared = s.entry?.map EntryPoint.declared := by
    rw [Scope.entry?, h.place, h.right.entry, Place.moved, twins.renumbered.lookups.entry,
      ← h.left.entry, Scope.entry?]
  have params := congrArg (Option.any (·.param == x)) entry
  rw [Option.any_map, Option.any_map] at params
  have inMain : s'.place.method.isNone = s.place.method.isNone := by
    rw [h.place]
    exact Option.isNone_map
  rw [Scope.isMainParam, inMain, Scope.isMainParam]
  exact congrArg _ params

theorem resolve (line : Nat) (x : Name) :
    Transfers (Option.map (Prod.map (VarRef.moved σ) id)) (s.resolve line x)
      (s'.resolve line x) := by
  rw [Scope.resolve, Scope.resolve, h.locals]
  split
  · exact .of _ _
  · rw [h.isMainParam twins]
    split
    · exact .fault
    · have place : s'.place.cls = σ s.place.cls := congrArg Place.cls h.place
      rw [place, h.findField? twins]
      cases s.table.findField? s.place.cls x with
      | none => exact .fault
      | some r =>
        rw [Option.map_some]
        dsimp only
        rw [h.field?]
        exact .of _ _

omit twins in
theorem checkInitialized (line : Nat) (x : Name) (v : VarRef) :
    s'.checkInitialized line x (v.moved σ) = s.checkInitialized line x v := by
  have same : s'.isInitialized (v.moved σ) = s.isInitialized v := by
    cases v with
    | loc i => rw [VarRef.moved, Scope.isInitialized, h.locals, Scope.isInitialized]
    | field r => rw [VarRef.moved, Scope.isInitialized, h.field?, Scope.isInitialized]
  rw [Scope.checkInitialized, same, Scope.checkInitialized]

theorem instantiate (line : Nat) (n : Name) :
    Transfers (Option.map σ) (s.instantiate line n) (s'.instantiate line n) := by
  rw [Scope.instantiate, Scope.instantiate, h.find? twins]
  cases s.table.find? n with
  | none => exact .fault
  | some c =>
    dsimp only [Option.map_some]
    rw [h.isMain twins]
    split
    · exact .fault
    · exact .of _ _

/-- The method that a message calls is the same, with the same parameters and the same result. -/
theorem callee (line : Nat) (ty : Ty) (m : Name) (clean : (s.callee line ty m).findings = []) :
    (s'.callee line ty m).findings = [] ∧
      (((s.callee line ty m).value = none ∧ (s'.callee line ty m).value = none) ∨
        ∃ r k k', (s.callee line ty m).value = some (r, k) ∧
          (s'.callee line ty m).value = some (r.moved σ, k') ∧ k'.paramTys = k.paramTys ∧
          k'.returnTy = k.returnTy) := by
  have found : ty.className?.bind s'.table.find? = (ty.className?.bind s.table.find?).map σ := by
    rw [Option.map_bind]
    exact congrArg _ (funext (h.find? twins))
  rw [Scope.callee] at clean ⊢
  rw [Scope.callee, found]
  cases hc : ty.className?.bind s.table.find? with
  | none =>
    rw [hc] at clean
    cases clean
  | some c =>
    rw [hc] at clean
    dsimp only [Option.map_some] at clean ⊢
    rw [h.findMethod? twins]
    cases hr : s.table.findMethod? c m with
    | none =>
      rw [hr] at clean
      cases clean
    | some r =>
      obtain ⟨k, hk, _⟩ := exists_method_of_find hr
      obtain ⟨k', hk', paramTys, returnTy⟩ := h.exists_method? twins hk
      dsimp only [Option.map_some]
      rw [hk, hk']
      exact ⟨rfl, Or.inr ⟨r, k, k', rfl, rfl, paramTys, returnTy⟩⟩

end Counterpart

theorem expect_moved (line : Nat) (e : Expr Note) (ty : Ty) (error : Ty → SemanticError) :
    expect line (e.moved σ) ty error = expect line e ty error := by
  rw [expect, Expr.note_moved, expect]
  cases e.note <;> rfl

theorem typeBinary_moved (line : Nat) (op : BinOp) (lhs rhs : Expr Note) :
    Transfers (Option.map (ExprInfo.moved σ)) (typeBinary line op lhs rhs)
      (typeBinary line op (lhs.moved σ) (rhs.moved σ)) := by
  rw [typeBinary, typeBinary, Expr.note_moved, Expr.note_moved]
  cases lhs.note with
  | none => exact .of _ _
  | some l =>
    cases rhs.note with
    | none => exact .of _ _
    | some r =>
      dsimp only [Option.map_some, ExprInfo.moved]
      split
      · exact .of _ _
      · exact .fault

theorem elementTy_moved (line : Nat) (array : Expr Note) :
    elementTy line (array.moved σ) = elementTy line array := by
  rw [elementTy, Expr.note_moved, elementTy]
  cases array.note <;> rfl

/-- A note that depends on what was found. -/
theorem noted (form : ExprForm Note) (ok : Bool) (ty : Ty) (ref : Option Ref) :
    Transfers (Prod.map (ExprForm.moved σ) (Option.map (ExprInfo.moved σ)))
      (pure (form, noteIf ok ty ref)) (pure (form.moved σ, noteIf ok ty (ref.map (Ref.moved σ)))) :=
  .value (congrArg (form.moved σ, ·) (noteIf_moved σ ok ty ref).symm)

section Typing
variable {s s' : Scope}

theorem checkArg_moved (h : Counterpart σ t u s s') (twins : Twins σ t u) (line : Nat)
    (method : Name) (position : Nat) (ty : Ty) (arg : Expr Note) :
    checkArg s' line method position ty (arg.moved σ) =
      checkArg s line method position ty arg := by
  rw [checkArg, Expr.note_moved, checkArg]
  cases arg.note with
  | none => rfl
  | some info =>
    dsimp only [Option.map_some, ExprInfo.moved]
    rw [h.assignable twins]

mutual

theorem typeExpr_moved (h : Counterpart σ t u s s') (twins : Twins σ t u) :
    ∀ e : Expr Unit, Transfers (Expr.moved σ) (typeExpr s e) (typeExpr s' e)
  | .node line _ form => (typeForm_moved h twins line form).bind fun _ => .pure _ _

theorem typeForm_moved (h : Counterpart σ t u s s') (twins : Twins σ t u) (line : Nat) :
    ∀ form : ExprForm Unit,
    Transfers (Prod.map (ExprForm.moved σ) (Option.map (ExprInfo.moved σ)))
      (typeForm s line form) (typeForm s' line form)
  | .binary op lhs rhs => by
    refine (typeExpr_moved h twins lhs).bind fun lhs => ?_
    refine (typeExpr_moved h twins rhs).bind fun rhs => ?_
    exact (typeBinary_moved line op lhs rhs).bind fun _ => .pure _ _
  | .not operand => by
    refine (typeExpr_moved h twins operand).bind fun operand => ?_
    rw [expect_moved]
    exact .after _ fun ok => noted (.not operand) ok .boolean none
  | .lookup array index => by
    refine (typeExpr_moved h twins array).bind fun array => ?_
    have untyped : ExprForm.moved σ (.lookup array (blank index)) =
        .lookup (array.moved σ) (blank index) :=
      congrArg (ExprForm.lookup _) (blank_moved σ index)
    rw [elementTy_moved]
    refine .after _ fun ty => ?_
    cases ty with
    | none => exact .value (congrArg (·, none) untyped.symm)
    | some ty =>
      refine (typeExpr_moved h twins index).bind fun index => ?_
      rw [expect_moved]
      exact .after _ fun ok => noted (.lookup array index) ok ty none
  | .length array => by
    refine (typeExpr_moved h twins array).bind fun array => ?_
    rw [elementTy_moved]
    exact .after _ fun ty => noted (.length array) ty.isSome .int none
  | .send receiver name args => by
    refine (typeExpr_moved h twins receiver).bind fun receiver => ?_
    have untyped : ExprForm.moved σ (.send receiver name (blankArgs args)) =
        .send (receiver.moved σ) name (blankArgs args) :=
      congrArg (ExprForm.send _ name) (blankArgs_moved σ args)
    rw [Expr.note_moved]
    cases receiver.note with
    | none => exact .value (congrArg (·, none) untyped.symm)
    | some info =>
      refine .bind_value fun clean => ?_
      obtain ⟨clean', called⟩ := h.callee twins line info.ty name clean
      refine ⟨clean', ?_⟩
      rcases called with ⟨missing, missing'⟩ | ⟨r, k, k', found, found', paramTys, returnTy⟩
      · rw [missing, show (s'.callee line (info.moved σ).ty name).value = none from missing']
        exact .value (congrArg (·, none) untyped.symm)
      · rw [found, show (s'.callee line (info.moved σ).ty name).value = some (r.moved σ, k')
          from found']
        dsimp only
        rw [paramTys, returnTy]
        split
        · exact (typeArgs_moved h twins line name 1 k.paramTys args).bind fun typed =>
            noted (.send receiver name typed.1) typed.2 k.returnTy (some (.method r))
        · exact .fault
  | .int _ => .of _ _
  | .tt => .of _ _
  | .ff => .of _ _
  | .name x => by
    refine (h.resolve twins line x).bind fun found => ?_
    cases found with
    | none => exact .pure _ _
    | some found =>
      obtain ⟨v, ty⟩ := found
      dsimp only [Option.map_some, Prod.map_apply, id]
      rw [h.checkInitialized]
      exact .after _ fun _ => .pure _ _
  | .this => by
    rw [typeForm, typeForm, h.place]
    cases hm : s.place.method with
    | none =>
      rw [Place.moved, hm]
      exact .fault
    | some m =>
      rw [Place.moved, hm]
      dsimp only [Option.map_some]
      rw [h.nameOf twins]
      exact .of _ _
  | .newIntArray size => by
    refine (typeExpr_moved h twins size).bind fun size => ?_
    rw [expect_moved]
    exact .after _ fun ok => noted (.newIntArray size) ok .intArray none
  | .newBooleanArray size => by
    refine (typeExpr_moved h twins size).bind fun size => ?_
    rw [expect_moved]
    exact .after _ fun ok => noted (.newBooleanArray size) ok .booleanArray none
  | .newObject name => by
    refine (h.instantiate twins line name).bind fun cls => ?_
    cases cls <;> exact .pure _ _
  | .bracket inner => by
    refine (typeExpr_moved h twins inner).bind fun inner => ?_
    exact .value (congrArg (ExprForm.bracket (inner.moved σ), ·) (Expr.note_moved σ inner))

theorem typeArgs_moved (h : Counterpart σ t u s s') (twins : Twins σ t u) (line : Nat)
    (method : Name) (position : Nat) (tys : List Ty) :
    ∀ args : List (Expr Unit), Transfers (Prod.map (movedArgs σ) id)
      (typeArgs s line method position tys args) (typeArgs s' line method position tys args)
  | [] => .of _ _
  | arg :: args => by
    refine (typeExpr_moved h twins arg).bind fun arg => ?_
    rw [checkArg_moved h twins]
    refine .after _ fun ok => ?_
    exact (typeArgs_moved h twins line method (position + 1) tys.tail args).bind fun _ => .pure _ _

end

end Typing

end Check

end MiniJava
