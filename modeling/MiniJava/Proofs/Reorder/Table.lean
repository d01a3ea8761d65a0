import Mathlib.Logic.Equiv.Defs
import MiniJava.Proofs.Inheritance

/-!
# Classes under other numbers

In two tables the same classes may have different numbers. Where a renumbering of one table gives the
other, every lookup in the one finds what it finds in the other, under the other number.
-/
namespace MiniJava

section Moved
variable (σ : ClassId → ClassId)

def MethodRef.moved (r : MethodRef) : MethodRef := ⟨σ r.cls, r.index⟩

def FieldRef.moved (r : FieldRef) : FieldRef := ⟨σ r.cls, r.index⟩

def Method.moved (m : Method) : Method := { m with owner := σ m.owner }

def Inherited.moved (e : Inherited) : Inherited := { e with method := e.method.moved σ }

/-- A class with other numbers for all classes that it refers to. -/
def Class.moved (k : Class) : Class :=
  { k with
    parent := k.parent.map σ
    methods := k.methods.map (Method.moved σ)
    inherited := k.inherited.map (Inherited.moved σ) }

end Moved

namespace ClassTable

/-- The second table has every class of the first one under another number. -/
structure Renumbered (σ : Equiv.Perm ClassId) (t u : ClassTable) : Prop where
  get? : ∀ c, u.get? (σ c) = (t.get? c).map (Class.moved σ)

/-- What lookups read of a table is the same under the other numbers. -/
structure SameLookups (σ : Equiv.Perm ClassId) (t u : ClassTable) : Prop where
  name : ∀ c, (u.get? (σ c)).map (·.name) = (t.get? c).map (·.name)
  parent? : ∀ c, u.parent? (σ c) = (t.parent? c).map σ
  fields : ∀ c, u.fields (σ c) = t.fields c
  methods : ∀ c, u.methods (σ c) = (t.methods c).map (Method.moved σ)
  entry : ∀ c, (u.get? (σ c)).bind (·.entry) = (t.get? c).bind (·.entry)

variable {σ : Equiv.Perm ClassId} {t u : ClassTable}

theorem Renumbered.lookups (h : Renumbered σ t u) : SameLookups σ t u where
  name c := by
    rw [h.get?, Option.map_map]
    rfl
  parent? c := by
    rw [ClassTable.parent?, h.get?, ClassTable.parent?]
    cases t.get? c <;> rfl
  fields c := by
    rw [ClassTable.fields, h.get?, ClassTable.fields]
    cases t.get? c <;> rfl
  methods c := by
    rw [ClassTable.methods, h.get?, ClassTable.methods]
    cases t.get? c <;> rfl
  entry c := by
    rw [h.get?]
    cases t.get? c <;> rfl

namespace SameLookups
variable (h : SameLookups σ t u)
include h

theorem nameOf (c : ClassId) : u.nameOf (σ c) = t.nameOf c := by
  rw [ClassTable.nameOf, h.name, ClassTable.nameOf]

theorem isMain (c : ClassId) : u.isMain (σ c) = t.isMain c := by
  have entries : ∀ (v : ClassTable) d, v.isMain d = ((v.get? d).bind (·.entry)).isSome := by
    intro v d
    rw [ClassTable.isMain]
    cases v.get? d <;> rfl
  rw [entries, h.entry, entries]

theorem method? (r : MethodRef) :
    u.method? (r.moved σ) = (t.method? r).map (Method.moved σ) := by
  rw [ClassTable.method?, MethodRef.moved, h.methods, List.getElem?_map, ClassTable.method?]

theorem ownField? (c : ClassId) (x : Name) : u.ownField? (σ c) x = t.ownField? c x := by
  rw [ClassTable.ownField?, h.fields, ClassTable.ownField?]

theorem ownMethod? (c : ClassId) (m : Name) : u.ownMethod? (σ c) m = t.ownMethod? c m := by
  rw [ClassTable.ownMethod?, h.methods, List.findIdx?_map, ClassTable.ownMethod?]
  rfl

variable (forest : t.Forest) (forest' : u.Forest)
include forest forest'

theorem chain (c : ClassId) : u.chain (σ c) = (t.chain c).map σ := by
  induction c using forest.induction with
  | top c hc =>
    have above : u.parent? (σ c) = none := by rw [h.parent?, hc, Option.map_none]
    rw [chain_of_top hc, chain_of_top above, List.map_singleton]
  | child c p hp ih =>
    have above : u.parent? (σ c) = some (σ p) := by rw [h.parent?, hp, Option.map_some]
    rw [forest.chain_of_parent hp, forest'.chain_of_parent above, ih, List.map_cons]

theorem ancestors (c : ClassId) : u.ancestors (σ c) = (t.ancestors c).map σ :=
  (List.cons.inj (h.chain forest forest' c)).2

theorem findField? (c : ClassId) (x : Name) :
    u.findField? (σ c) x = (t.findField? c x).map (FieldRef.moved σ) := by
  rw [ClassTable.findField?, h.chain forest forest', List.findSome?_map, ClassTable.findField?,
    List.map_findSome?]
  refine congrArg (List.findSome? · _) (funext fun k => ?_)
  simp only [Function.comp_apply, h.ownField?, Option.map_map]
  rfl

theorem findMethod? (c : ClassId) (m : Name) :
    u.findMethod? (σ c) m = (t.findMethod? c m).map (MethodRef.moved σ) := by
  rw [ClassTable.findMethod?, h.chain forest forest', List.findSome?_map, ClassTable.findMethod?,
    List.map_findSome?]
  refine congrArg (List.findSome? · _) (funext fun k => ?_)
  simp only [Function.comp_apply, h.ownMethod?, Option.map_map]
  rfl

theorem visibleFields (c : ClassId) : u.visibleFields (σ c) = t.visibleFields c := by
  rw [ClassTable.visibleFields, h.chain forest forest', List.flatMap_map, ClassTable.visibleFields]
  exact congrArg (List.flatMap · _) (funext h.fields)

end SameLookups

/-- A name stands for the same class. -/
theorem SameLookups.find? (h : SameLookups σ t u) (wf : t.WellFormed) (wf' : u.WellFormed)
    (n : Name) : u.find? n = (t.find? n).map σ := by
  have named : ∀ {v : ClassTable}, v.WellFormed → ∀ d, v.find? n = some d ↔
      (v.get? d).map (·.name) = some n := by
    intro v wf d
    rw [wf.find?_eq_some_iff, Option.map_eq_some_iff]
  refine Option.ext fun c => (named wf' c).trans (Iff.trans ?_ Option.map_eq_some_iff.symm)
  constructor
  · intro found
    refine ⟨σ.symm c, (named wf _).mpr ?_, σ.apply_symm_apply c⟩
    rw [← h.name, σ.apply_symm_apply, found]
  · rintro ⟨d, found, rfl⟩
    rw [h.name, (named wf d).mp found]

end ClassTable

namespace Check

open ClassTable

section Inherited
variable (σ : ClassId → ClassId)

theorem place_moved (e : Inherited) (kept : List Inherited) :
    place (e.moved σ) (kept.map (Inherited.moved σ)) =
      (place e kept).map (Inherited.moved σ) := by
  induction kept with
  | nil => rfl
  | cons k ks ih =>
    have names : (k.moved σ).name = (e.moved σ).name ↔ k.name = e.name := Iff.rfl
    rw [List.map_cons, place, place, if_congr names rfl rfl, ih]
    split <;> rfl

end Inherited

variable {σ : Equiv.Perm ClassId} {t u : ClassTable}

theorem inheritFrom_moved (h : SameLookups σ t u) (c a : ClassId) (kept : List Inherited) :
    inheritFrom u (σ c) (σ a) (kept.map (Inherited.moved σ)) =
      (inheritFrom t c a kept).map (Inherited.moved σ) := by
  rw [inheritFrom_eq, inheritFrom_eq, h.methods, List.zipIdx_map, List.foldl_map]
  induction (t.methods a).zipIdx generalizing kept with
  | nil => rfl
  | cons x xs ih =>
    have one : inheritOne u (σ c) (σ a) (kept.map (Inherited.moved σ)) (x.1.moved σ, x.2) =
        (inheritOne t c a kept x).map (Inherited.moved σ) := by
      have name : (x.1.moved σ).name = x.1.name := rfl
      rw [inheritOne, inheritOne]
      dsimp only
      rw [name, h.ownMethod?]
      split
      · rfl
      · exact place_moved σ ⟨x.1.name, ⟨a, x.2⟩⟩ kept
    rw [List.foldl_cons, List.foldl_cons, ← ih]
    exact congrArg (List.foldl _ · xs) one

/-- A class inherits the same methods, in the same order. -/
theorem inheritedOf_moved (h : SameLookups σ t u) (forest : t.Forest) (forest' : u.Forest)
    (c : ClassId) : inheritedOf u (σ c) = (inheritedOf t c).map (Inherited.moved σ) := by
  rw [inheritedOf, h.ancestors forest forest', ← List.map_reverse, List.foldl_map, inheritedOf]
  suffices step : ∀ (as : List ClassId) (kept : List Inherited),
      as.foldl (fun kept a => inheritFrom u (σ c) (σ a) kept) (kept.map (Inherited.moved σ)) =
        (as.foldl (fun kept a => inheritFrom t c a kept) kept).map (Inherited.moved σ) from
    step (t.ancestors c).reverse []
  intro as
  induction as with
  | nil => exact fun kept => rfl
  | cons a as ih =>
    intro kept
    rw [List.foldl_cons, List.foldl_cons, inheritFrom_moved h, ih]

end Check

end MiniJava
