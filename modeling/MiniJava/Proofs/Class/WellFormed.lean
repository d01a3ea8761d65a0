import MiniJava.Proofs.Class.Chain
import MiniJava.Proofs.Class.Outline

/-!
# Well-formed class tables

What the class hierarchy guarantees of every table it builds, whatever was reported: a forest with
the main class alone at number 0, every class under its name and no name for anything else, and in
each class the names of fields all different and the names of methods all different. Later passes
keep the outline of the table and with it all of this.
-/
namespace MiniJava

/-- The parameters of a method are the first of its locals, and every local has a name of its
own. -/
structure Method.LocalsFit (m : Method) : Prop where
  params : m.paramCount ≤ m.locals.length
  distinct : (m.locals.map (·.name)).Nodup

namespace ClassTable

/-- The names and the classes agree: a name stands for the class that has it. -/
structure Indexed (t : ClassTable) : Prop where
  find?_eq_some_iff : ∀ {n c}, t.find? n = some c ↔ ∃ k, t.get? c = some k ∧ k.name = n

structure WellFormed (t : ClassTable) : Prop where
  indexed : t.Indexed
  forest : t.Forest
  parent_not_main : ∀ {c p}, t.parent? c = some p → t.isMain p = false
  isMain_iff : ∀ {c}, t.isMain c = true ↔ c = 0
  main_top : t.parent? 0 = none
  main_fields : t.fields 0 = []
  main_methods : t.methods 0 = []
  fieldNames_nodup : ∀ c, ((t.fields c).map (·.name)).Nodup
  methodNames_nodup : ∀ c, ((t.methods c).map (·.name)).Nodup
  owner_eq : ∀ c, ∀ m ∈ t.methods c, m.owner = c

variable {t u : ClassTable}

theorem getElem?_names (t : ClassTable) (c : ClassId) :
    t.names[c]? = (t.get? c).map (·.name) := by
  simp [names, get?]

theorem names_modify (t : ClassTable) (c : ClassId) {f : Class → Class}
    (hf : ∀ k, (f k).name = k.name) : (t.modify c f).names = t.names := by
  apply List.ext_getElem?
  intro d
  rw [getElem?_names, getElem?_names, get?_modify]
  cases t.get? d with
  | none => rfl
  | some k =>
    by_cases here : c = d
    · simp [here, hf]
    · simp [here]

namespace Indexed
variable (h : t.Indexed)
include h

theorem getElem?_names_iff {n : Name} {c : ClassId} : t.names[c]? = some n ↔ t.find? n = some c := by
  rw [getElem?_names, Option.map_eq_some_iff, h.find?_eq_some_iff]

/-- Two classes of one name would both be found under it. -/
theorem names_nodup : t.names.Nodup := by
  refine List.pairwise_iff_getElem.mpr fun i j hi hj before same => Nat.ne_of_lt before ?_
  have first := h.getElem?_names_iff.mp (List.getElem?_eq_getElem hi)
  have second := h.getElem?_names_iff.mp (List.getElem?_eq_getElem hj)
  rw [same, second] at first
  exact (Option.some.inj first).symm

theorem find?_isSome_iff {n : Name} : (t.find? n).isSome = true ↔ n ∈ t.names := by
  rw [Option.isSome_iff_exists, List.mem_iff_getElem?]
  exact exists_congr fun _ => h.getElem?_names_iff.symm

theorem find?_eq_none_iff {n : Name} : t.find? n = none ↔ n ∉ t.names := by
  rw [← h.find?_isSome_iff, Bool.not_eq_true, Option.isSome_eq_false_iff, Option.isNone_iff_eq_none]

theorem congr (find : ∀ n, u.find? n = t.find? n) (names : u.names = t.names) : u.Indexed where
  find?_eq_some_iff := by
    intro n c
    rw [find, h.find?_eq_some_iff, ← Option.map_eq_some_iff, ← getElem?_names, ← names,
      getElem?_names, Option.map_eq_some_iff]

theorem modify (c : ClassId) {f : Class → Class} (hf : ∀ k, (f k).name = k.name) :
    (t.modify c f).Indexed := h.congr (fun _ => rfl) (names_modify t c hf)

theorem modifyMethod (r : MethodRef) (f : Method → Method) : (t.modifyMethod r f).Indexed :=
  h.modify r.cls fun _ => rfl

end Indexed

/-- A table is as well-formed as another one with the same parents and names. -/
theorem WellFormed.congr (h : t.WellFormed) (parents : ∀ c, u.parent? c = t.parent? c)
    (mains : ∀ c, u.isMain c = t.isMain c) (find : ∀ n, u.find? n = t.find? n)
    (names : u.names = t.names)
    (fields : ∀ c, (u.fields c).map Field.outline = (t.fields c).map Field.outline)
    (methods : ∀ c, (u.methods c).map Method.outline = (t.methods c).map Method.outline) :
    u.WellFormed where
  indexed := h.indexed.congr find names
  forest := fun hp => h.forest ((parents _).symm.trans hp)
  parent_not_main := fun hp => (mains _).trans (h.parent_not_main ((parents _).symm.trans hp))
  isMain_iff := by
    intro c
    rw [mains c]
    exact h.isMain_iff
  main_top := (parents 0).trans h.main_top
  main_fields := by
    have hf := fields 0
    rw [h.main_fields] at hf
    exact List.map_eq_nil_iff.mp hf
  main_methods := by
    have hm := methods 0
    rw [h.main_methods] at hm
    exact List.map_eq_nil_iff.mp hm
  fieldNames_nodup := by
    intro c
    have hn := congrArg (List.map Field.name) (fields c)
    simp only [List.map_map] at hn
    have he : (u.fields c).map (·.name) = (t.fields c).map (·.name) := hn
    rw [he]
    exact h.fieldNames_nodup c
  methodNames_nodup := by
    intro c
    have hn := congrArg (List.map Method.name) (methods c)
    simp only [List.map_map] at hn
    have he : (u.methods c).map (·.name) = (t.methods c).map (·.name) := hn
    rw [he]
    exact h.methodNames_nodup c
  owner_eq := by
    intro c m hm
    have ho : m.outline ∈ (t.methods c).map Method.outline :=
      methods c ▸ List.mem_map_of_mem hm
    obtain ⟨k, hk, he⟩ := List.mem_map.mp ho
    have howner := congrArg Method.owner he
    exact howner.symm.trans (h.owner_eq c k hk)

theorem WellFormed.of_sameOutline (h : t.WellFormed) (ho : SameOutline t u) : u.WellFormed :=
  h.congr (fun c => (ho.parent? c).symm) (fun c => (ho.isMain c).symm)
    (fun n => (ho.find? n).symm) ho.names.symm
    (fun c => (ho.fields c).symm) (fun c => (ho.methods c).symm)

theorem WellFormed.names_nodup (h : t.WellFormed) : t.names.Nodup := h.indexed.names_nodup

theorem WellFormed.find?_eq_some_iff (h : t.WellFormed) {n : Name} {c : ClassId} :
    t.find? n = some c ↔ ∃ k, t.get? c = some k ∧ k.name = n :=
  h.indexed.find?_eq_some_iff

theorem lt_size_of_get? {c : ClassId} {k : Class} (hk : t.get? c = some k) : c < t.size :=
  (Array.getElem?_eq_some_iff.mp hk).1

theorem get?_of_lt_size {c : ClassId} (hc : c < t.size) : ∃ k, t.get? c = some k :=
  ⟨t.classes[c], Array.getElem?_eq_getElem hc⟩

theorem get?_of_parent? {c p : ClassId} (hp : t.parent? c = some p) :
    ∃ k, t.get? c = some k ∧ k.parent = some p :=
  Option.bind_eq_some_iff.mp hp

theorem mem_methods_of_method? {r : MethodRef} {m : Method} (hm : t.method? r = some m) :
    m ∈ t.methods r.cls := List.mem_of_getElem? hm

/-- The class of a method, which has it among its own. -/
theorem get?_of_method? {r : MethodRef} {m : Method} (hm : t.method? r = some m) :
    ∃ k, t.get? r.cls = some k ∧ k.methods[r.index]? = some m := by
  rw [method?, ClassTable.methods] at hm
  cases hk : t.get? r.cls with
  | none =>
    rw [hk] at hm
    cases hm
  | some k =>
    rw [hk] at hm
    exact ⟨k, rfl, hm⟩

theorem get?_of_field? {r : FieldRef} {f : Field} (hf : t.field? r = some f) :
    ∃ k, t.get? r.cls = some k ∧ k.fields[r.index]? = some f := by
  rw [field?, ClassTable.fields] at hf
  cases hk : t.get? r.cls with
  | none =>
    rw [hk] at hf
    cases hf
  | some k =>
    rw [hk] at hf
    exact ⟨k, rfl, hf⟩

/-- In a class a name stands for the method that has it. -/
theorem WellFormed.ownMethod?_of_method? (h : t.WellFormed) {r : MethodRef} {m : Method}
    (hm : t.method? r = some m) : t.ownMethod? r.cls m.name = some r.index := by
  obtain ⟨hlt, hget⟩ := List.getElem?_eq_some_iff.mp hm
  refine List.findIdx?_eq_some_iff_getElem.mpr ⟨hlt, by simp [hget], ?_⟩
  intro j hj heq
  have hnames : ((t.methods r.cls).map (·.name))[j]? =
      ((t.methods r.cls).map (·.name))[r.index]? := by
    have hjlt : j < (t.methods r.cls).length := Nat.lt_trans hj hlt
    simp only [List.getElem?_map, List.getElem?_eq_getElem hlt, List.getElem?_eq_getElem hjlt,
      Option.map_some, hget]
    exact congrArg some (by simpa using heq)
  have hjlen : j < ((t.methods r.cls).map (·.name)).length := by
    rw [List.length_map]
    exact Nat.lt_trans hj hlt
  have := (List.getElem?_inj hjlen (h.methodNames_nodup r.cls)).mp hnames
  exact absurd this (Nat.ne_of_lt hj)

theorem WellFormed.not_main_of_field? (h : t.WellFormed) {r : FieldRef} {f : Field}
    (hf : t.field? r = some f) : t.isMain r.cls = false := by
  cases hmain : t.isMain r.cls with
  | false => rfl
  | true =>
    have hzero := h.isMain_iff.mp hmain
    rw [field?, hzero, h.main_fields] at hf
    cases hf

def LocalsFit (t : ClassTable) : Prop := ∀ c, ∀ m ∈ t.methods c, m.LocalsFit

theorem LocalsFit.of_sameDeclarations (h : t.LocalsFit) (hd : SameDeclarations t u) :
    u.LocalsFit := by
  intro c m hm
  have hmem : m.declared ∈ (t.methods c).map Method.declared :=
    hd.methods c ▸ List.mem_map_of_mem hm
  obtain ⟨k, hk, he⟩ := List.mem_map.mp hmem
  have hcount := congrArg Method.paramCount he
  have hnames := congrArg (fun m => (Method.locals m).map (·.name)) he
  simp only [Method.declared, List.map_map] at hcount hnames
  have same : k.locals.map (·.name) = m.locals.map (·.name) := hnames
  have hlength := congrArg List.length same
  simp only [List.length_map] at hlength
  obtain ⟨params, distinct⟩ := h c k hk
  exact ⟨by rw [← hcount, ← hlength]; exact params, same ▸ distinct⟩

theorem LocalsFit.length_paramTys (h : t.LocalsFit) {r : MethodRef} {m : Method}
    (hm : t.method? r = some m) : m.paramTys.length = m.paramCount := by
  rw [Method.paramTys, Method.params, List.length_map, List.length_take]
  exact Nat.min_eq_left (h r.cls m (mem_methods_of_method? hm)).params

end ClassTable

end MiniJava
