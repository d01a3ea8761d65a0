import MiniJava.Class.Table

/-!
# Changes that lookups do not notice

Looking something up reads names, parents and the names of members. A change of every class that
keeps these keeps what is found.
-/
namespace MiniJava

/-- A change that keeps all that lookups read of a class. -/
structure Class.Unnoticed (f : Class → Class) : Prop where
  name : ∀ c, (f c).name = c.name
  parent : ∀ c, (f c).parent = c.parent
  isMain : ∀ c, (f c).isMain = c.isMain
  fieldNames : ∀ c, (f c).fields.map (·.name) = c.fields.map (·.name)
  methodNames : ∀ c, (f c).methods.map (·.name) = c.methods.map (·.name)

/-- A change of one member of a list, seen through a map that it commutes with. -/
theorem map_modify_comm {α β : Type} {g : α → β} {f : α → α} {f' : β → β}
    (h : ∀ a, g (f a) = f' (g a)) (xs : List α) (i : Nat) :
    (xs.modify i f).map g = (xs.map g).modify i f' := by
  apply List.ext_getElem?
  intro j
  simp only [List.getElem?_map, List.getElem?_modify]
  cases xs[j]? with
  | none => rfl
  | some a =>
    by_cases hij : i = j
    · simp [hij, h]
    · simp [hij]

namespace ClassTable

/-- Changes every class. -/
def map (f : Class → Class) (t : ClassTable) : ClassTable := { t with classes := t.classes.map f }

section Map
variable (f : Class → Class) (t : ClassTable) (c : ClassId)

theorem size_map : (t.map f).size = t.size := Array.size_map

theorem ids_map : (t.map f).ids = t.ids := by rw [ids, size_map, ids]

theorem get?_map : (t.map f).get? c = (t.get? c).map f := Array.getElem?_map

theorem find?_map (n : Name) : (t.map f).find? n = t.find? n := rfl

theorem map_id : t.map id = t := ClassTable.ext (Array.map_id _) rfl

theorem map_map (g : Class → Class) : (t.map g).map f = t.map (f ∘ g) :=
  ClassTable.ext Array.map_map rfl

theorem fields_map {g : Field → Field} (h : ∀ k, (f k).fields = k.fields.map g) :
    (t.map f).fields c = (t.fields c).map g := by
  rw [fields, get?_map, fields]
  cases t.get? c with
  | none => rfl
  | some k => exact h k

theorem methods_map {g : Method → Method} (h : ∀ k, (f k).methods = k.methods.map g) :
    (t.map f).methods c = (t.methods c).map g := by
  rw [methods, get?_map, methods]
  cases t.get? c with
  | none => rfl
  | some k => exact h k

/-- A change of one class, seen through a change of every class that it commutes with. -/
theorem map_modify {g g' : Class → Class} (h : ∀ k, t.get? c = some k → f (g k) = g' (f k)) :
    (t.modify c g).map f = (t.map f).modify c g' := by
  refine ClassTable.ext (Array.ext_getElem? fun i => ?_) rfl
  simp only [modify, map, Array.getElem?_map, Array.getElem?_modify]
  split
  · rename_i same
    subst same
    cases hk : t.classes[c]? with
    | none => rfl
    | some k => exact congrArg some (h k hk)
  · rfl

/-- A change of one class that is not seen at all. -/
theorem map_modify_unseen {g : Class → Class} (h : ∀ k, t.get? c = some k → f (g k) = f k) :
    (t.modify c g).map f = t.map f := by
  have same : (t.map f).modify c id = t.map f := by
    refine ClassTable.ext (Array.ext_getElem? fun i => ?_) rfl
    rw [modify, Array.getElem?_modify, Option.map_id]
    exact ite_self _
  exact (map_modify f t c h).trans same

end Map

theorem climb_congr {t u : ClassTable} (parents : ∀ c, u.parent? c = t.parent? c) (n : Nat) :
    ∀ c, u.climb n c = t.climb n c := by
  induction n with
  | zero => intro c; rfl
  | succ n ih =>
    intro c
    rw [climb, climb, parents c]
    cases t.parent? c with
    | none => rfl
    | some p => exact congrArg (p :: ·) (ih p)

section Unnoticed
variable {f : Class → Class} (h : Class.Unnoticed f) (t : ClassTable) (c : ClassId)
include h

theorem names_map : (t.map f).names = t.names := by
  simp only [names, map, Array.toList_map, List.map_map]
  exact List.map_congr_left fun k _ => h.name k

theorem nameOf_map : (t.map f).nameOf c = t.nameOf c := by
  rw [nameOf, get?_map, nameOf]
  cases t.get? c with
  | none => rfl
  | some k => exact h.name k

theorem parent?_map : (t.map f).parent? c = t.parent? c := by
  rw [parent?, get?_map, parent?]
  cases t.get? c with
  | none => rfl
  | some k => exact h.parent k

theorem isMain_map : (t.map f).isMain c = t.isMain c := by
  rw [isMain, get?_map, isMain]
  cases t.get? c with
  | none => rfl
  | some k => exact h.isMain k

theorem ancestors_map : (t.map f).ancestors c = t.ancestors c := climb_congr (parent?_map h t) c c

theorem chain_map : (t.map f).chain c = t.chain c := by rw [chain, ancestors_map h, chain]

theorem root_map : (t.map f).root c = t.root c := by rw [root, ancestors_map h, root]

theorem assignable_map (target source : Ty) :
    (t.map f).assignable target source = t.assignable target source := by
  unfold assignable isSubclass
  simp only [find?_map, chain_map h]

theorem fieldNames_map : ((t.map f).fields c).map (·.name) = (t.fields c).map (·.name) := by
  rw [fields, get?_map, fields]
  cases t.get? c with
  | none => rfl
  | some k => exact h.fieldNames k

theorem methodNames_map : ((t.map f).methods c).map (·.name) = (t.methods c).map (·.name) := by
  rw [methods, get?_map, methods]
  cases t.get? c with
  | none => rfl
  | some k => exact h.methodNames k

theorem ownField?_map (x : Name) : (t.map f).ownField? c x = t.ownField? c x := by
  have same := congrArg (List.findIdx? (· == x)) (fieldNames_map h t c)
  simp only [List.findIdx?_map] at same
  exact same

theorem ownMethod?_map (m : Name) : (t.map f).ownMethod? c m = t.ownMethod? c m := by
  have same := congrArg (List.findIdx? (· == m)) (methodNames_map h t c)
  simp only [List.findIdx?_map] at same
  exact same

theorem findField?_map (x : Name) : (t.map f).findField? c x = t.findField? c x := by
  simp only [findField?, chain_map h, ownField?_map h]

theorem findMethod?_map (m : Name) : (t.map f).findMethod? c m = t.findMethod? c m := by
  simp only [findMethod?, chain_map h, ownMethod?_map h]

end Unnoticed

end ClassTable

end MiniJava
