import Mathlib.Data.List.Forall2
import MiniJava.Check.Body
import MiniJava.Proofs.Class.Outline

/-!
# Tables in which marks were set

A class table is raised to another one if the two differ in marks of initialization only, and none of
these was taken away. A mark raises the table that it is set in.
-/
namespace MiniJava

section Lists
variable {α : Type} {R : α → α → Prop}

theorem forall₂_trans (trans : ∀ {a b c}, R a b → R b c → R a c) {xs ys : List α}
    (h : List.Forall₂ R xs ys) : ∀ {zs}, List.Forall₂ R ys zs → List.Forall₂ R xs zs := by
  induction h with
  | nil => exact id
  | cons first _ ih =>
    rintro _ (_ | ⟨second, rest⟩)
    exact .cons (trans first second) (ih rest)

/-- One member is changed, and all others stay. -/
theorem forall₂_modify (refl : ∀ a, R a a) {f : α → α} (step : ∀ a, R a (f a)) (xs : List α)
    (i : Nat) : List.Forall₂ R xs (xs.modify i f) := by
  induction xs generalizing i with
  | nil => cases i <;> exact .nil
  | cons x xs ih =>
    cases i with
    | zero => exact .cons (step x) (List.forall₂_same.mpr fun a _ => refl a)
    | succ i => exact .cons (refl x) (ih i)

theorem map_eq_of_forall₂ {β : Type} {f : α → β} (h : ∀ a b, R a b → f a = f b) {as bs : List α}
    (related : List.Forall₂ R as bs) : as.map f = bs.map f := by
  induction related with
  | nil => rfl
  | cons first _ ih => rw [List.map_cons, List.map_cons, h _ _ first, ih]

end Lists

def Local.Raised (x y : Local) : Prop := ∃ set, y = { x with initialized := x.initialized || set }

def Field.Raised (f g : Field) : Prop := ∃ set, g = { f with initialized := f.initialized || set }

structure Method.Raised (m n : Method) : Prop where
  rest : n = { m with locals := n.locals }
  locals : List.Forall₂ Local.Raised m.locals n.locals

structure EntryPoint.Raised (e d : EntryPoint) : Prop where
  rest : d = { e with locals := d.locals }
  locals : List.Forall₂ Local.Raised e.locals d.locals

structure Class.Raised (k l : Class) : Prop where
  rest : l = { k with fields := l.fields, methods := l.methods, entry := l.entry }
  fields : List.Forall₂ Field.Raised k.fields l.fields
  methods : List.Forall₂ Method.Raised k.methods l.methods
  entry : Option.Rel EntryPoint.Raised k.entry l.entry

/-- The same names, and the classes of the one table and of the other one by one. -/
structure ClassTable.Raised (t u : ClassTable) : Prop where
  byName : u.byName = t.byName
  classes : List.Forall₂ Class.Raised t.classes.toList u.classes.toList

namespace Local.Raised

theorem refl (x : Local) : x.Raised x := ⟨false, by rw [Bool.or_false]⟩

theorem trans {x y z : Local} (h : x.Raised y) (h' : y.Raised z) : x.Raised z := by
  obtain ⟨a, rfl⟩ := h
  obtain ⟨b, rfl⟩ := h'
  exact ⟨a || b, by rw [Bool.or_assoc]⟩

theorem setInit (x : Local) : x.Raised (Check.setInit x) := ⟨true, by rw [Bool.or_true]; rfl⟩

theorem list (xs : List Local) : List.Forall₂ Local.Raised xs xs :=
  List.forall₂_same.mpr fun x _ => refl x

theorem modify (xs : List Local) (i : Nat) :
    List.Forall₂ Local.Raised xs (xs.modify i Check.setInit) :=
  forall₂_modify refl setInit xs i

end Local.Raised

namespace Field.Raised

theorem refl (f : Field) : f.Raised f := ⟨false, by rw [Bool.or_false]⟩

theorem trans {f g h : Field} (first : f.Raised g) (second : g.Raised h) : f.Raised h := by
  obtain ⟨a, rfl⟩ := first
  obtain ⟨b, rfl⟩ := second
  exact ⟨a || b, by rw [Bool.or_assoc]⟩

theorem mark (f : Field) : f.Raised { f with initialized := true } :=
  ⟨true, by rw [Bool.or_true]⟩

end Field.Raised

namespace Method.Raised

theorem refl (m : Method) : m.Raised m := ⟨rfl, Local.Raised.list m.locals⟩

theorem trans {m n k : Method} (h : m.Raised n) (h' : n.Raised k) : m.Raised k where
  rest := h'.rest.trans (by rw [h.rest])
  locals := forall₂_trans .trans h.locals h'.locals

theorem mark (m : Method) (i : Nat) :
    m.Raised { m with locals := m.locals.modify i Check.setInit } :=
  ⟨rfl, Local.Raised.modify m.locals i⟩

end Method.Raised

namespace EntryPoint.Raised

theorem refl (e : EntryPoint) : e.Raised e := ⟨rfl, Local.Raised.list e.locals⟩

theorem trans {e d b : EntryPoint} (h : e.Raised d) (h' : d.Raised b) : e.Raised b where
  rest := h'.rest.trans (by rw [h.rest])
  locals := forall₂_trans .trans h.locals h'.locals

theorem mark (e : EntryPoint) (i : Nat) :
    e.Raised { e with locals := e.locals.modify i Check.setInit } :=
  ⟨rfl, Local.Raised.modify e.locals i⟩

end EntryPoint.Raised

namespace Class.Raised
variable {k l m : Class}

theorem refl (k : Class) : k.Raised k where
  rest := rfl
  fields := List.forall₂_same.mpr fun f _ => .refl f
  methods := List.forall₂_same.mpr fun m _ => .refl m
  entry := by
    cases k.entry with
    | none => exact .none
    | some e => exact .some (.refl e)

theorem trans (h : k.Raised l) (h' : l.Raised m) : k.Raised m where
  rest := h'.rest.trans (by rw [h.rest])
  fields := forall₂_trans .trans h.fields h'.fields
  methods := forall₂_trans .trans h.methods h'.methods
  entry := by
    have first := h.entry
    have second := h'.entry
    revert first second
    generalize k.entry = a, l.entry = b, m.entry = c
    rintro (first | _)
    · rintro (second | _)
      exact .some (first.trans second)
    · exact id

end Class.Raised

namespace ClassTable.Raised
variable {t u v : ClassTable}

theorem refl (t : ClassTable) : t.Raised t := ⟨rfl, List.forall₂_same.mpr fun k _ => .refl k⟩

theorem trans (h : t.Raised u) (h' : u.Raised v) : t.Raised v where
  byName := h'.byName.trans h.byName
  classes := forall₂_trans .trans h.classes h'.classes

theorem modify (t : ClassTable) (c : ClassId) {f : Class → Class}
    (step : ∀ k : Class, k.Raised (f k)) : t.Raised (t.modify c f) where
  byName := rfl
  classes := by
    rw [ClassTable.modify, Array.toList_modify]
    exact forall₂_modify .refl step t.classes.toList c

theorem modifyField (t : ClassTable) (r : FieldRef) {f : Field → Field}
    (step : ∀ g : Field, g.Raised (f g)) : t.Raised (t.modifyField r f) := by
  refine modify t r.cls fun k => ?_
  obtain ⟨_, _, methods, entry⟩ := Class.Raised.refl k
  exact ⟨rfl, forall₂_modify .refl step k.fields r.index, methods, entry⟩

theorem modifyMethod (t : ClassTable) (r : MethodRef) {f : Method → Method}
    (step : ∀ m : Method, m.Raised (f m)) : t.Raised (t.modifyMethod r f) := by
  refine modify t r.cls fun k => ?_
  obtain ⟨_, fields, _, entry⟩ := Class.Raised.refl k
  exact ⟨rfl, fields, forall₂_modify .refl step k.methods r.index, entry⟩

theorem modifyEntry (t : ClassTable) (c : ClassId) {f : EntryPoint → EntryPoint}
    (step : ∀ e : EntryPoint, e.Raised (f e)) :
    t.Raised (t.modify c fun k => { k with entry := k.entry.map f }) := by
  refine modify t c fun k => ?_
  obtain ⟨_, fields, methods, _⟩ := Class.Raised.refl k
  refine ⟨rfl, fields, methods, ?_⟩
  cases k.entry with
  | none => exact .none
  | some e => exact .some (step e)

theorem markInitialized (t : ClassTable) (p : Check.Place) (v : VarRef) :
    t.Raised (Check.markInitialized t p v) := by
  cases v with
  | field r => exact modifyField t r Field.Raised.mark
  | loc i =>
    rw [Check.markInitialized, Check.markLocal]
    split
    · exact modifyEntry t p.cls fun e => EntryPoint.Raised.mark e i
    · rename_i r _
      exact modifyMethod t r fun m => Method.Raised.mark m i

end ClassTable.Raised

theorem Local.Raised.declared {x y : Local} (h : x.Raised y) : x.declared = y.declared := by
  obtain ⟨_, rfl⟩ := h
  rfl

theorem Field.Raised.outline {f g : Field} (h : f.Raised g) : f.outline = g.outline := by
  obtain ⟨_, rfl⟩ := h
  rfl

theorem declared_of_forall₂ {xs ys : List Local} (h : List.Forall₂ Local.Raised xs ys) :
    xs.map Local.declared = ys.map Local.declared :=
  map_eq_of_forall₂ (fun _ _ same => same.declared) h

theorem Method.Raised.declared {m n : Method} (h : m.Raised n) : m.declared = n.declared := by
  rw [Method.declared, declared_of_forall₂ h.locals, h.rest]
  rfl

theorem EntryPoint.Raised.declared {e d : EntryPoint} (h : e.Raised d) :
    e.declared = d.declared := by
  rw [EntryPoint.declared, declared_of_forall₂ h.locals, h.rest]
  rfl

theorem Class.Raised.declared {k l : Class} (h : k.Raised l) : k.declared = l.declared := by
  have fields : k.fields.map Field.outline = l.fields.map Field.outline :=
    map_eq_of_forall₂ (fun _ _ same => same.outline) h.fields
  have methods : k.methods.map Method.declared = l.methods.map Method.declared :=
    map_eq_of_forall₂ (fun _ _ same => same.declared) h.methods
  have entry : k.entry.map EntryPoint.declared = l.entry.map EntryPoint.declared := by
    have marks := h.entry
    revert marks
    generalize k.entry = a, l.entry = b
    rintro (first | _)
    · exact congrArg some first.declared
    · rfl
  rw [Class.declared, fields, methods, entry, h.rest]
  rfl

/-- Setting marks declares nothing. -/
theorem ClassTable.Raised.sameDeclarations {t u : ClassTable} (h : t.Raised u) :
    ClassTable.SameDeclarations u t := by
  refine ClassTable.ext (Array.toList_inj.mp ?_) h.byName
  rw [ClassTable.map, ClassTable.map, Array.toList_map, Array.toList_map]
  exact (map_eq_of_forall₂ (fun _ _ same => same.declared) h.classes).symm

end MiniJava
