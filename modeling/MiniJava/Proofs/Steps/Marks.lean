import MiniJava.Proofs.Steps.Uses

/-!
# Marks of initialization

A mark is set for one variable and no other: a variable of a method in that method only, a field for
everyone who sees it. No mark is ever taken away.
-/
namespace MiniJava

open Check ClassTable

namespace ClassTable
variable {t : ClassTable} {c : ClassId} {f : Class → Class}

/-- A part of classes that a change leaves alone is the same in all classes. -/
theorem map_get?_modify {α : Type} (g : Class → α) (kept : ∀ k, g (f k) = g k) (d : ClassId) :
    ((t.modify c f).get? d).map g = (t.get? d).map g := by
  rw [get?_modify, Option.map_map]
  refine Option.map_congr fun k _ => ?_
  change g (if c = d then f k else k) = g k
  split
  · exact kept k
  · rfl

theorem fields_modify (kept : ∀ k, (f k).fields = k.fields) (d : ClassId) :
    (t.modify c f).fields d = t.fields d :=
  congrArg (·.getD []) (map_get?_modify Class.fields kept d)

theorem methods_modify (kept : ∀ k, (f k).methods = k.methods) (d : ClassId) :
    (t.modify c f).methods d = t.methods d :=
  congrArg (·.getD []) (map_get?_modify Class.methods kept d)

theorem entry_modify (kept : ∀ k, (f k).entry = k.entry) (d : ClassId) :
    ((t.modify c f).get? d).bind (·.entry) = (t.get? d).bind (·.entry) := by
  rw [get?_modify]
  cases t.get? d with
  | none => rfl
  | some k =>
    change (if c = d then f k else k).entry = k.entry
    split
    · exact kept k
    · rfl

theorem methods_modifyField (t : ClassTable) (r : FieldRef) (f : Field → Field) (d : ClassId) :
    (t.modifyField r f).methods d = t.methods d := by
  apply methods_modify
  exact fun _ => rfl

theorem entry_modifyField (t : ClassTable) (r : FieldRef) (f : Field → Field) (d : ClassId) :
    ((t.modifyField r f).get? d).bind (·.entry) = (t.get? d).bind (·.entry) := by
  apply entry_modify
  exact fun _ => rfl

theorem fields_modifyMethod (t : ClassTable) (r : MethodRef) (f : Method → Method) (d : ClassId) :
    (t.modifyMethod r f).fields d = t.fields d := by
  apply fields_modify
  exact fun _ => rfl

theorem entry_modifyMethod (t : ClassTable) (r : MethodRef) (f : Method → Method) (d : ClassId) :
    ((t.modifyMethod r f).get? d).bind (·.entry) = (t.get? d).bind (·.entry) := by
  apply entry_modify
  exact fun _ => rfl

/-- A change of one member is seen in its class only, and in no other member of it. -/
theorem getElem?_modify_member {α : Type} (g : Class → List α) {h : α → α} {i : Nat}
    (changed : ∀ k, g (f k) = (g k).modify i h) (d : ClassId) (j : Nat) :
    (((t.modify c f).get? d).map g |>.getD [])[j]? =
      if d = c ∧ j = i then (((t.get? d).map g |>.getD [])[j]?).map h
      else ((t.get? d).map g |>.getD [])[j]? := by
  rw [get?_modify]
  by_cases hc : c = d
  · subst hc
    cases t.get? c with
    | none => simp
    | some k =>
      by_cases hi : i = j
      · simp [changed, hi]
      · have other : ¬ j = i := fun h => hi h.symm
        simp [changed, hi, other]
  · have other : ¬ d = c := fun h => hc h.symm
    cases t.get? d <;> simp [hc, other]

theorem field?_modifyField (t : ClassTable) (r q : FieldRef) (f : Field → Field) :
    (t.modifyField r f).field? q =
      if q = r then (t.field? q).map f else t.field? q := by
  obtain ⟨c, i⟩ := r
  obtain ⟨d, j⟩ := q
  simp only [FieldRef.mk.injEq]
  exact getElem?_modify_member Class.fields (fun _ => rfl) d j

theorem method?_modifyMethod (t : ClassTable) (r q : MethodRef) (f : Method → Method) :
    (t.modifyMethod r f).method? q =
      if q = r then (t.method? q).map f else t.method? q := by
  obtain ⟨c, i⟩ := r
  obtain ⟨d, j⟩ := q
  simp only [MethodRef.mk.injEq]
  exact getElem?_modify_member Class.methods (fun _ => rfl) d j

end ClassTable

/-- The parameters and variables of a method, or those of `main`. -/
def localsOf (t : ClassTable) : Option MethodRef → List Local
  | none => (((t.get? 0).bind (·.entry)).map (·.locals)).getD []
  | some r => ((t.method? r).map (·.locals)).getD []

theorem Check.Place.Proper.locals {p : Place} (h : p.Proper) (t : ClassTable) :
    Scope.locals ⟨t, p⟩ = localsOf t p.method := by
  cases h <;> rfl

theorem localsOf_modifyField (t : ClassTable) (r : FieldRef) (f : Field → Field)
    (m : Option MethodRef) : localsOf (t.modifyField r f) m = localsOf t m := by
  cases m with
  | none =>
    rw [localsOf, entry_modifyField]
    rfl
  | some q =>
    rw [localsOf, method?, methods_modifyField]
    rfl

/-- A mark changes the locals of one method. -/
theorem localsOf_markLocal {p : Place} (h : p.Proper) (t : ClassTable) (i : Nat)
    (m : Option MethodRef) :
    localsOf (markLocal t p i) m =
      if m = p.method then (localsOf t m).modify i setInit else localsOf t m := by
  cases h with
  | main =>
    cases m with
    | none =>
      rw [markLocal, localsOf, localsOf, get?_modify]
      cases t.get? 0 with
      | none => simp
      | some k =>
        obtain ⟨_, _, _, _, _, _, _ | e⟩ := k <;> simp
    | some q =>
      have methods := methods_modify (t := t) (c := 0) (f := fun k =>
        { k with entry := k.entry.map fun e => { e with locals := e.locals.modify i setInit } })
        (fun _ => rfl) q.cls
      rw [markLocal, localsOf, localsOf, method?, methods]
      rfl
  | method r =>
    cases m with
    | none =>
      rw [markLocal, localsOf, localsOf, entry_modifyMethod]
      rfl
    | some q =>
      rw [markLocal, localsOf, localsOf, method?_modifyMethod]
      by_cases hq : q = r
      · cases t.method? q <;> simp [hq]
      · simp [hq]

theorem field?_markLocal (t : ClassTable) (p : Place) (i : Nat) (r : FieldRef) :
    (markLocal t p i).field? r = t.field? r := by
  obtain ⟨cls, _ | q⟩ := p
  · have fields := fields_modify (t := t) (c := cls) (f := fun k =>
      { k with entry := k.entry.map fun e => { e with locals := e.locals.modify i setInit } })
      (fun _ => rfl) r.cls
    rw [markLocal, field?, fields]
    rfl
  · rw [markLocal, field?, fields_modifyMethod]
    rfl

/-- The variable is there. -/
def Variable.Known (t : ClassTable) : Variable → Prop
  | .loc m i => i < (localsOf t m).length
  | .field r => (t.field? r).isSome = true

theorem flag_loc (t : ClassTable) (m : Option MethodRef) (i : Nat) :
    flag t (.loc m i) = ((localsOf t m)[i]?).any (·.initialized) := by
  cases m <;> rfl

/-- A mark sets the mark of its variable and of no other. -/
theorem flag_markInitialized {p : Place} (h : p.Proper) {t : ClassTable} {v : VarRef}
    (known : (p.variable v).Known t) (w : Variable) :
    flag (markInitialized t p v) w = true ↔ w = p.variable v ∨ flag t w = true := by
  cases v with
  | loc i =>
    cases w with
    | loc m j =>
      rw [markInitialized, flag_loc, flag_loc, localsOf_markLocal h]
      by_cases hm : m = p.method
      · subst hm
        have inside : i < (localsOf t p.method).length := known
        by_cases hj : i = j
        · subst hj
          simp [List.getElem?_eq_getElem inside, setInit, Place.variable]
        · have other : ¬ j = i := fun h => hj h.symm
          simp [hj, other, Place.variable]
      · simp [hm, Place.variable]
    | field r =>
      rw [markInitialized, flag, flag, field?_markLocal]
      simp [Place.variable]
  | field q =>
    cases w with
    | loc m j =>
      rw [markInitialized, flag_loc, flag_loc, localsOf_modifyField]
      simp [Place.variable]
    | field r =>
      rw [markInitialized, flag, flag, field?_modifyField]
      by_cases hr : r = q
      · subst hr
        obtain ⟨f, hf⟩ := Option.isSome_iff_exists.mp (show (t.field? r).isSome = true from known)
        simp [hf, Place.variable]
      · simp [hr, Place.variable]

theorem localsOf_declared {t u : ClassTable} (same : SameDeclarations u t) (m : Option MethodRef) :
    (localsOf u m).map Local.declared = (localsOf t m).map Local.declared := by
  cases m with
  | none => exact (Typing.remarked same ⟨0, none⟩).locals
  | some r => exact (Typing.remarked same ⟨r.cls, some r⟩).locals

/-- Marks do not make variables. -/
theorem Variable.known_congr {t u : ClassTable} (same : SameDeclarations u t) (w : Variable) :
    w.Known u ↔ w.Known t := by
  cases w with
  | loc m i =>
    have lengths := congrArg List.length (localsOf_declared same m)
    rw [List.length_map, List.length_map] at lengths
    rw [Known, Known, lengths]
  | field r =>
    have outlines := congrArg Option.isSome (same.outline.field? r)
    rw [Option.isSome_map, Option.isSome_map] at outlines
    rw [Known, Known, outlines]

theorem Check.Scope.exists_field_of_denotes? {s : Scope} {x : Name} {r : FieldRef}
    (h : s.denotes? x = some (.field r)) : ∃ f, s.table.field? r = some f := by
  rw [denotes?] at h
  split at h
  · cases h
  · obtain ⟨r', found, same⟩ := Option.map_eq_some_iff.mp h
    obtain rfl := Variable.field.inj same
    obtain ⟨f, hf, _⟩ := exists_field_of_find found
    exact ⟨f, hf⟩

/-- The variable of a name is there. -/
theorem Check.Scope.known_of_denotes? {s : Scope} (proper : s.place.Proper) {x : Name}
    {w : Variable} (h : s.denotes? x = some w) : w.Known s.table := by
  cases w with
  | loc m i =>
    rw [denotes?] at h
    split at h
    · rename_i i' hi
      obtain ⟨rfl, rfl⟩ := Variable.loc.inj (Option.some.inj h)
      obtain ⟨inside, _⟩ := List.findIdx?_eq_some_iff_getElem.mp hi
      rw [Variable.Known, ← proper.locals]
      exact inside
    · obtain ⟨r, _, none⟩ := Option.map_eq_some_iff.mp h
      cases none
  | field r => exact Option.isSome_iff_exists.mpr (exists_field_of_denotes? h)

/-- Marks do not change what names stand for. -/
theorem Check.Scope.denotes?_congr {s s₀ : Scope} (h : Typing.Remarked s s₀) (x : Name) :
    s.denotes? x = s₀.denotes? x := by
  rw [denotes?, denotes?, h.findIdx_locals, h.place, h.table.outline.findField?]

theorem Check.Scope.readsAt_congr {s s₀ : Scope} (h : Typing.Remarked s s₀) (e : Expr Unit) :
    s.readsAt e = s₀.readsAt e := by
  unfold readsAt reads
  split
  · rw [denotes?_congr h]
  · rfl

theorem Step.uses_congr {s s₀ : Scope} (h : Typing.Remarked s s₀) (st : Step Unit) :
    st.uses s = st.uses s₀ := by
  have exprs : ∀ e : Expr Unit, e.reads s = e.reads s₀ := by
    intro e
    rw [Expr.reads, Expr.reads, funext (Scope.readsAt_congr h)]
  cases st <;>
    simp only [uses, exprs, Scope.reads, Scope.writes, Scope.denotes?_congr h]

end MiniJava
