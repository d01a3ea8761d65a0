import MiniJava.Check.Hierarchy
import MiniJava.Check.Report
import MiniJava.Proofs.Class.Map
import MiniJava.Proofs.Layout.Unseen

/-!
# Reports and class tables without lines

A report counts what it takes and compares it with its limit; where it was found makes no difference.
A computation on programs without lines goes the way of the computation with them, if it gives the
same value and the same findings, both without lines. Nothing that is looked up in a class table
depends on a line, so neither does the layout that is computed from it.
-/
namespace MiniJava

def Finding.unlined (f : Finding) : Finding := { f with line := 0 }

namespace Report

def unlined (r : Report) : Report := { r with findings := r.findings.map Finding.unlined }

variable (r : Report)

@[simp] theorem full_unlined : r.unlined.full = r.full := by
  simp only [full, unlined, List.length_map]

@[simp] theorem isClean_unlined : r.unlined.isClean = r.isClean := by
  simp only [isClean, unlined, List.isEmpty_map]

theorem unlined_add (f : Finding) : (r.add f).unlined = r.unlined.add f.unlined := by
  rw [add, add, full_unlined]
  split
  · rfl
  · simp only [unlined, List.map_append, List.map_singleton]

theorem unlined_addAll (fs : List Finding) :
    (r.addAll fs).unlined = r.unlined.addAll (fs.map Finding.unlined) := by
  induction fs generalizing r with
  | nil => rfl
  | cons f fs ih =>
    calc ((r.add f).addAll fs).unlined
        = (r.add f).unlined.addAll (fs.map Finding.unlined) := ih (r.add f)
      _ = (r.unlined.add f.unlined).addAll (fs.map Finding.unlined) := by rw [unlined_add]

end Report

namespace Found
variable {α β γ δ : Type}

/-- The second computation does without lines what the first one does with them; `f` takes the lines
from a value. -/
structure Unlined (f : α → β) (x : Found α) (y : Found β) : Prop where
  value : y.value = f x.value
  findings : y.findings = x.findings.map Finding.unlined

namespace Unlined

theorem of (f : α → β) (a : α) : Unlined f (Found.of a) (Found.of (f a)) := ⟨rfl, rfl⟩

theorem pure (f : α → β) (a : α) : Unlined f (Pure.pure a) (Pure.pure (f a)) := ⟨rfl, rfl⟩

theorem report (line : Nat) (e : SemanticError) :
    Unlined id (MiniJava.report line e) (MiniJava.report 0 e) := ⟨rfl, rfl⟩

theorem bind {f : α → β} {x : Found α} {y : Found β} (h : Unlined f x y) {g : γ → δ}
    {k : α → Found γ} {l : β → Found δ} (h' : ∀ a, Unlined g (k a) (l (f a))) :
    Unlined g (x >>= k) (y >>= l) := by
  have rest : Unlined g (k x.value) (l y.value) := h.value ▸ h' x.value
  refine ⟨rest.value, ?_⟩
  calc y.findings ++ (l y.value).findings
      = x.findings.map Finding.unlined ++ (k x.value).findings.map Finding.unlined := by
        rw [h.findings, rest.findings]
    _ = (x.findings ++ (k x.value).findings).map Finding.unlined := List.map_append.symm

/-- A step that reports and gives up. -/
theorem reported (line : Nat) (e : SemanticError) (f : α → β) (a : α) :
    Unlined f (MiniJava.report line e >>= fun _ => Pure.pure a)
      (MiniJava.report 0 e >>= fun _ => Pure.pure (f a)) :=
  (report line e).bind fun _ => pure f a

theorem ite {f : α → β} {c c' : Prop} [Decidable c] [Decidable c'] (same : c' ↔ c)
    {x x' : Found α} {y y' : Found β} (yes : Unlined f x y) (no : Unlined f x' y') :
    Unlined f (if c then x else x') (if c' then y else y') := by
  by_cases h : c
  · rw [if_pos h, if_pos (same.mpr h)]
    exact yes
  · rw [if_neg h, if_neg (mt same.mp h)]
    exact no

end Unlined

end Found

def Local.unlined (x : Local) : Local := { x with line := 0 }

def Field.unlined (f : Field) : Field := { f with line := 0 }

def Method.unlined (m : Method) : Method := { m with line := 0, locals := m.locals.map Local.unlined }

def EntryPoint.unlined (e : EntryPoint) : EntryPoint :=
  { e with locals := e.locals.map Local.unlined }

def Class.unlined (c : Class) : Class :=
  { c with
    line := 0
    fields := c.fields.map Field.unlined
    methods := c.methods.map Method.unlined
    entry := c.entry.map EntryPoint.unlined }

theorem Class.unnoticed_unlined : Class.Unnoticed Class.unlined where
  name _ := rfl
  parent _ := rfl
  isMain _ := Option.isSome_map
  fieldNames _ := List.map_map
  methodNames _ := List.map_map

@[simp] theorem Method.paramTys_unlined (m : Method) : m.unlined.paramTys = m.paramTys := by
  simp only [paramTys, params, unlined, ← List.map_take, List.map_map]
  rfl

namespace ClassTable

def unlined (t : ClassTable) : ClassTable := t.map Class.unlined

section Lookup
variable (t : ClassTable) (c : ClassId)

@[simp] theorem size_unlined : t.unlined.size = t.size := size_map _ t

@[simp] theorem get?_unlined : t.unlined.get? c = (t.get? c).map Class.unlined := get?_map _ t c

@[simp] theorem fields_unlined : t.unlined.fields c = (t.fields c).map Field.unlined :=
  fields_map _ t c fun _ => rfl

@[simp] theorem methods_unlined : t.unlined.methods c = (t.methods c).map Method.unlined :=
  methods_map _ t c fun _ => rfl

@[simp] theorem names_unlined : t.unlined.names = t.names := names_map Class.unnoticed_unlined t

@[simp] theorem find?_unlined (n : Name) : t.unlined.find? n = t.find? n :=
  find?_map _ t n

@[simp] theorem nameOf_unlined : t.unlined.nameOf c = t.nameOf c :=
  nameOf_map Class.unnoticed_unlined t c

@[simp] theorem isMain_unlined : t.unlined.isMain c = t.isMain c :=
  isMain_map Class.unnoticed_unlined t c

@[simp] theorem ancestors_unlined : t.unlined.ancestors c = t.ancestors c :=
  ancestors_map Class.unnoticed_unlined t c

@[simp] theorem chain_unlined : t.unlined.chain c = t.chain c :=
  chain_map Class.unnoticed_unlined t c

@[simp] theorem assignable_unlined (target source : Ty) :
    t.unlined.assignable target source = t.assignable target source :=
  assignable_map Class.unnoticed_unlined t target source

@[simp] theorem findField?_unlined (x : Name) : t.unlined.findField? c x = t.findField? c x :=
  findField?_map Class.unnoticed_unlined t c x

@[simp] theorem findMethod?_unlined (m : Name) : t.unlined.findMethod? c m = t.findMethod? c m :=
  findMethod?_map Class.unnoticed_unlined t c m

@[simp] theorem field?_unlined (r : FieldRef) :
    t.unlined.field? r = (t.field? r).map Field.unlined := by
  rw [field?, fields_unlined, List.getElem?_map, field?]

@[simp] theorem method?_unlined (r : MethodRef) :
    t.unlined.method? r = (t.method? r).map Method.unlined := by
  rw [method?, methods_unlined, List.getElem?_map, method?]

@[simp] theorem visibleFields_unlined :
    t.unlined.visibleFields c = (t.visibleFields c).map Field.unlined := by
  rw [visibleFields, chain_unlined, funext (fields_unlined t), visibleFields, List.map_flatMap]

@[simp] theorem visibleMethods_unlined :
    t.unlined.visibleMethods c = (t.visibleMethods c).map Method.unlined := by
  rw [visibleMethods, chain_unlined, funext (methods_unlined t), visibleMethods, List.map_flatMap]

end Lookup

section Change
variable (t : ClassTable)

theorem unlined_modify (c : ClassId) {f g : Class → Class}
    (h : ∀ k, (f k).unlined = g k.unlined) : (t.modify c f).unlined = t.unlined.modify c g :=
  map_modify _ t c fun k _ => h k

theorem unlined_modifyField (r : FieldRef) (f g : Field → Field)
    (h : ∀ k, (f k).unlined = g k.unlined) :
    (t.modifyField r f).unlined = t.unlined.modifyField r g := by
  apply unlined_modify
  intro k
  simp only [Class.unlined, map_modify_comm h]

theorem unlined_modifyMethod (r : MethodRef) (f g : Method → Method)
    (h : ∀ m, (f m).unlined = g m.unlined) :
    (t.modifyMethod r f).unlined = t.unlined.modifyMethod r g := by
  apply unlined_modify
  intro k
  simp only [Class.unlined, map_modify_comm h]

theorem unlined_push (k : Class) :
    (t.push k).unlined = t.unlined.push k.unlined :=
  ClassTable.ext Array.map_push (congrArg (fun n => (k.name, n) :: t.byName) t.size_unlined.symm)

theorem unlined_add (k : Class) :
    t.unlined.add k.unlined = ((t.add k).1, (t.add k).2.unlined) := by
  have name : k.unlined.name = k.name := rfl
  rw [add, add, find?_unlined, name]
  cases t.find? k.name with
  | none => rw [size_unlined, unlined_push]
  | some c => rfl

end Change

end ClassTable

@[simp] theorem Method.signature_unlined (m : Method) : m.unlined.signature = m.signature := by
  rw [signature, paramTys_unlined, signature]
  rfl

theorem Class.unseen_unlined : Class.Unseen Class.unlined Field.unlined Method.unlined where
  unnoticed := Class.unnoticed_unlined
  fields _ := rfl
  methods _ := rfl
  inherited _ := rfl
  members _ _ _ := rfl
  fieldName _ := rfl
  fieldTy _ := rfl
  offset _ := rfl
  place _ _ := rfl
  methodName _ := rfl
  signature := Method.signature_unlined
  slot _ := rfl
  number _ _ := rfl

namespace Layout

/-- The layout is the same without lines. -/
theorem compute_unlined (s : Strategy) (t : ClassTable) :
    compute s t.unlined = Prod.map ClassTable.unlined id (compute s t) :=
  Class.unseen_unlined.compute_map t s

theorem describe_unlined (l : Layout) (t : ClassTable) : l.describe t.unlined = l.describe t :=
  Class.unseen_unlined.describe_map t l

end Layout

end MiniJava
