import MiniJava.Proofs.Class.Map

/-!
# What the passes leave alone in a class table

The outline of a class table is what the class hierarchy fixes: names, parents, and the names and
types of members. Its declarations also have the parameters and local variables. Neither has marks
of initialization, offsets or slots. Lookups read nothing but the outline, so two tables with one
outline answer them alike.
-/
namespace MiniJava

def Local.declared (x : Local) : Local := { x with initialized := false }

def Field.outline (f : Field) : Field := { f with offset := none, initialized := false }

def Method.declared (m : Method) : Method :=
  { m with locals := m.locals.map Local.declared, slotOffset := none }

def Method.outline (m : Method) : Method :=
  { m with paramCount := 0, locals := [], slotOffset := none }

def EntryPoint.declared (e : EntryPoint) : EntryPoint :=
  { e with locals := e.locals.map Local.declared }

def EntryPoint.outline (e : EntryPoint) : EntryPoint := { e with locals := [] }

namespace Class

def declared (c : Class) : Class :=
  { c with
    fields := c.fields.map Field.outline
    methods := c.methods.map Method.declared
    entry := c.entry.map EntryPoint.declared }

def outline (c : Class) : Class :=
  { c with
    fields := c.fields.map Field.outline
    methods := c.methods.map Method.outline
    entry := c.entry.map EntryPoint.outline }

end Class

theorem Class.unnoticed_outline : Class.Unnoticed Class.outline where
  name _ := rfl
  parent _ := rfl
  isMain _ := Option.isSome_map
  fieldNames _ := List.map_map
  methodNames _ := List.map_map

theorem Class.outline_declared (c : Class) : c.declared.outline = c.outline := by
  simp only [Class.declared, Class.outline, List.map_map, Option.map_map]
  rfl

theorem Method.paramTys_declared (m : Method) : m.declared.paramTys = m.paramTys := by
  simp only [paramTys, params, declared, ← List.map_take, List.map_map]
  rfl

/-- What a method takes and returns does not change with marks and slots. -/
theorem Method.paramTys_eq_of_declared {m k : Method} (h : m.declared = k.declared) :
    m.paramTys = k.paramTys := by
  rw [← m.paramTys_declared, h, k.paramTys_declared]

theorem Method.name_eq_of_outline {m k : Method} (h : m.outline = k.outline) :
    m.name = k.name := by
  have hn := congrArg Method.name h
  exact hn

namespace ClassTable

def SameOutline (t u : ClassTable) : Prop :=
  t.map Class.outline = u.map Class.outline

def SameDeclarations (t u : ClassTable) : Prop :=
  t.map Class.declared = u.map Class.declared

variable {t u v : ClassTable}

namespace SameOutline

theorem refl (t : ClassTable) : SameOutline t t := rfl

theorem symm (h : SameOutline t u) : SameOutline u t := Eq.symm h

theorem trans (h : SameOutline t u) (h' : SameOutline u v) : SameOutline t v := Eq.trans h h'

/-- What does not change when a table is cut down to its outline. -/
theorem congr {α : Type} (h : SameOutline t u) (g : ClassTable → α)
    (kept : ∀ t : ClassTable, g (t.map Class.outline) = g t) : g t = g u := by
  rw [← kept t, h, kept u]

theorem byName (h : SameOutline t u) : t.byName = u.byName := by
  have same := congrArg ClassTable.byName h
  exact same

theorem get? (h : SameOutline t u) (c : ClassId) :
    (t.get? c).map Class.outline = (u.get? c).map Class.outline := by
  rw [← get?_map, ← get?_map, h]

/-- A class stands in the other table under the same number, with the same outline. -/
theorem exists_get? (h : SameOutline t u) {c : ClassId} {k : Class} (hk : t.get? c = some k) :
    ∃ l, u.get? c = some l ∧ l.outline = k.outline := by
  have hm := h.get? c
  rw [hk] at hm
  obtain ⟨l, hl, ho⟩ := Option.map_eq_some_iff.mp hm.symm
  exact ⟨l, hl, ho⟩

theorem size (h : SameOutline t u) : t.size = u.size := h.congr _ (size_map _)

theorem names (h : SameOutline t u) : t.names = u.names :=
  h.congr _ (names_map Class.unnoticed_outline)

theorem find? (h : SameOutline t u) (n : Name) : t.find? n = u.find? n :=
  h.congr (ClassTable.find? · n) fun t => find?_map Class.outline t n

theorem nameOf (h : SameOutline t u) (c : ClassId) : t.nameOf c = u.nameOf c :=
  h.congr (ClassTable.nameOf · c) fun t => nameOf_map Class.unnoticed_outline t c

theorem parent? (h : SameOutline t u) (c : ClassId) : t.parent? c = u.parent? c :=
  h.congr (ClassTable.parent? · c) fun t => parent?_map Class.unnoticed_outline t c

theorem isMain (h : SameOutline t u) (c : ClassId) : t.isMain c = u.isMain c :=
  h.congr (ClassTable.isMain · c) fun t => isMain_map Class.unnoticed_outline t c

theorem ancestors (h : SameOutline t u) (c : ClassId) : t.ancestors c = u.ancestors c :=
  h.congr (ClassTable.ancestors · c) fun t => ancestors_map Class.unnoticed_outline t c

theorem chain (h : SameOutline t u) (c : ClassId) : t.chain c = u.chain c :=
  h.congr (ClassTable.chain · c) fun t => chain_map Class.unnoticed_outline t c

/-- What a class sees is read from its chain only. -/
theorem flatMap_chain {α : Type} (h : SameOutline t u) {c : ClassId}
    {own own' : ClassId → List α} (same : ∀ a ∈ u.chain c, own a = own' a) :
    (t.chain c).flatMap own = (u.chain c).flatMap own' := by
  rw [h.chain, List.flatMap_def, List.flatMap_def, List.map_congr_left same]

theorem root (h : SameOutline t u) (c : ClassId) : t.root c = u.root c :=
  h.congr (ClassTable.root · c) fun t => root_map Class.unnoticed_outline t c

theorem assignable (h : SameOutline t u) (target source : Ty) :
    t.assignable target source = u.assignable target source :=
  h.congr (ClassTable.assignable · target source) fun t =>
    assignable_map Class.unnoticed_outline t target source

theorem fields (h : SameOutline t u) (c : ClassId) :
    (t.fields c).map Field.outline = (u.fields c).map Field.outline := by
  rw [← fields_map Class.outline t c fun _ => rfl, h, fields_map _ _ _ fun _ => rfl]

theorem methods (h : SameOutline t u) (c : ClassId) :
    (t.methods c).map Method.outline = (u.methods c).map Method.outline := by
  rw [← methods_map Class.outline t c fun _ => rfl, h, methods_map _ _ _ fun _ => rfl]

theorem methodNames (h : SameOutline t u) (c : ClassId) :
    (t.methods c).map (·.name) = (u.methods c).map (·.name) :=
  h.congr (fun t => (t.methods c).map (·.name)) fun t =>
    methodNames_map Class.unnoticed_outline t c

theorem ownMethod? (h : SameOutline t u) (c : ClassId) (m : Name) :
    t.ownMethod? c m = u.ownMethod? c m :=
  h.congr (ClassTable.ownMethod? · c m) fun t => ownMethod?_map Class.unnoticed_outline t c m

theorem findField? (h : SameOutline t u) (c : ClassId) (x : Name) :
    t.findField? c x = u.findField? c x :=
  h.congr (ClassTable.findField? · c x) fun t => findField?_map Class.unnoticed_outline t c x

theorem findMethod? (h : SameOutline t u) (c : ClassId) (m : Name) :
    t.findMethod? c m = u.findMethod? c m :=
  h.congr (ClassTable.findMethod? · c m) fun t => findMethod?_map Class.unnoticed_outline t c m

theorem field? (h : SameOutline t u) (r : FieldRef) :
    (t.field? r).map Field.outline = (u.field? r).map Field.outline := by
  have he := congrArg (fun fs => fs[r.index]?) (h.fields r.cls)
  simp only [List.getElem?_map] at he
  exact he

theorem method? (h : SameOutline t u) (r : MethodRef) :
    (t.method? r).map Method.outline = (u.method? r).map Method.outline := by
  have he := congrArg (fun ms => ms[r.index]?) (h.methods r.cls)
  simp only [List.getElem?_map] at he
  exact he

theorem exists_field? (h : SameOutline t u) {r : FieldRef} {f : Field} (hf : t.field? r = some f) :
    ∃ g, u.field? r = some g ∧ g.outline = f.outline := by
  have hm := h.field? r
  rw [hf] at hm
  exact Option.map_eq_some_iff.mp hm.symm

theorem exists_method? (h : SameOutline t u) {r : MethodRef} {m : Method}
    (hr : t.method? r = some m) : ∃ k, u.method? r = some k ∧ k.outline = m.outline := by
  have hm := h.method? r
  rw [hr] at hm
  exact Option.map_eq_some_iff.mp hm.symm

end SameOutline

namespace SameDeclarations

theorem refl (t : ClassTable) : SameDeclarations t t := rfl

theorem symm (h : SameDeclarations t u) : SameDeclarations u t := Eq.symm h

theorem trans (h : SameDeclarations t u) (h' : SameDeclarations u v) : SameDeclarations t v :=
  Eq.trans h h'

theorem outline (h : SameDeclarations t u) : SameOutline t u := by
  have ho := congrArg (ClassTable.map Class.outline) h
  have he : Class.outline ∘ Class.declared = Class.outline := funext Class.outline_declared
  simp only [map_map, he] at ho
  exact ho

theorem get? (h : SameDeclarations t u) (c : ClassId) :
    (t.get? c).map Class.declared = (u.get? c).map Class.declared := by
  have he := congrArg (ClassTable.get? · c) h
  simp only [get?_map] at he
  exact he

theorem methods (h : SameDeclarations t u) (c : ClassId) :
    (t.methods c).map Method.declared = (u.methods c).map Method.declared := by
  have hf := congrArg (fun o => (Option.map Class.methods o).getD []) (h.get? c)
  rw [ClassTable.methods, ClassTable.methods]
  cases ht : t.get? c <;> cases hu : u.get? c <;> simp_all [Class.declared]

theorem method? (h : SameDeclarations t u) (r : MethodRef) :
    (t.method? r).map Method.declared = (u.method? r).map Method.declared := by
  have he := congrArg (fun ms => ms[r.index]?) (h.methods r.cls)
  simp only [List.getElem?_map] at he
  exact he

theorem exists_method? (h : SameDeclarations t u) {r : MethodRef} {m : Method}
    (hr : t.method? r = some m) : ∃ k, u.method? r = some k ∧ k.declared = m.declared := by
  have hm := h.method? r
  rw [hr] at hm
  exact Option.map_eq_some_iff.mp hm.symm

theorem entry (h : SameDeclarations t u) (c : ClassId) :
    ((t.get? c).bind (·.entry)).map EntryPoint.declared =
      ((u.get? c).bind (·.entry)).map EntryPoint.declared := by
  have he := h.get? c
  cases ht : t.get? c with
  | none =>
    rw [ht] at he
    rw [Option.map_eq_none_iff.mp he.symm]
  | some k =>
    rw [ht] at he
    obtain ⟨l, hl, hd⟩ := Option.map_eq_some_iff.mp he.symm
    rw [hl]
    have hk := congrArg Class.entry hd
    exact hk.symm

end SameDeclarations

theorem get?_modify (t : ClassTable) (c : ClassId) (f : Class → Class) (d : ClassId) :
    (t.modify c f).get? d = (t.get? d).map fun k => if c = d then f k else k := by
  simp only [ClassTable.get?, ClassTable.modify, Array.getElem?_modify]
  split
  · rfl
  · cases t.classes[d]? <;> rfl

/-- A change of one class that keeps its outline keeps the outline of the table. -/
theorem sameOutline_modify (t : ClassTable) (c : ClassId) {f : Class → Class}
    (hf : ∀ k, t.get? c = some k → (f k).outline = k.outline) : SameOutline (t.modify c f) t :=
  map_modify_unseen Class.outline t c hf

theorem sameDeclarations_modify (t : ClassTable) (c : ClassId) {f : Class → Class}
    (hf : ∀ k, t.get? c = some k → (f k).declared = k.declared) :
    SameDeclarations (t.modify c f) t :=
  map_modify_unseen Class.declared t c hf

/-- A change of one member of a list that the map `g` does not see is not seen in the list. -/
theorem map_modify_eq {α β : Type} (g : α → β) (f : α → α) (hf : ∀ a, g (f a) = g a)
    (xs : List α) (i : Nat) : (xs.modify i f).map g = xs.map g :=
  (map_modify_comm hf xs i).trans (List.modify_id i _)

theorem sameDeclarations_modifyField (t : ClassTable) (r : FieldRef) {f : Field → Field}
    (hf : ∀ k, (f k).outline = k.outline) : SameDeclarations (t.modifyField r f) t := by
  apply sameDeclarations_modify
  intro k _
  simp only [Class.declared, map_modify_eq Field.outline f hf]

theorem sameDeclarations_modifyMethod (t : ClassTable) (r : MethodRef) {f : Method → Method}
    (hf : ∀ k, (f k).declared = k.declared) : SameDeclarations (t.modifyMethod r f) t := by
  apply sameDeclarations_modify
  intro k _
  simp only [Class.declared, map_modify_eq Method.declared f hf]

end ClassTable

end MiniJava
