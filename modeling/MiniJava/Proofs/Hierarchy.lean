import MiniJava.Check.Hierarchy
import MiniJava.Proofs.Class.Entering
import MiniJava.Proofs.Findings
import MiniJava.Proofs.Notes

/-!
# The class hierarchy

Whatever a program declares, the table that is built of it is well-formed. Where nothing was
reported, every class and every method is entered and its declaration is left with its number.
-/
namespace MiniJava.Check

open ClassTable

theorem any_name_eq_false {α : Type} (name : α → Name) (xs : List α) (n : Name) :
    xs.any (fun x => name x == n) = false ↔ n ∉ xs.map name := by
  simp only [List.any_eq_false, List.mem_map, beq_iff_eq, not_exists, not_and]

theorem nodup_map_append_singleton {α : Type} {name : α → Name} {xs : List α} {a : α}
    (h : (xs.map name).Nodup) (ha : name a ∉ xs.map name) :
    ((xs ++ [a]).map name).Nodup := by
  rw [List.map_append, List.nodup_append]
  refine ⟨h, by simp, ?_⟩
  intro x hx y hy heq
  rw [List.map_singleton, List.mem_singleton] at hy
  exact ha (hy ▸ heq ▸ hx)

theorem keepFields_nodup (cls : Name) (ds : List VarDecl) :
    ∀ kept : List Field, (kept.map (·.name)).Nodup →
      ((keepFields cls kept ds).value.map (·.name)).Nodup := by
  induction ds with
  | nil => intro kept h; exact h
  | cons d ds ih =>
    intro kept h
    rw [keepFields]
    split
    · exact ih kept h
    · rename_i hd
      have hnew : d.name ∉ kept.map (·.name) :=
        (any_name_eq_false (·.name) kept d.name).mp (Bool.eq_false_iff.mpr hd)
      exact ih _ (nodup_map_append_singleton h hnew)

/-- A method declaration that was entered is left with the place of a method of its name. -/
def MethodEntered (id : ClassId) (methods : List Method) (m : MethodDecl .registered) : Prop :=
  ∃ i k, m.note = some ⟨id, i⟩ ∧ methods[i]? = some k ∧ k.name = m.name

theorem clash?_eq_none_iff {cls : Name} {fields : List Field} {kept : List Method} {name : Name} :
    clash? cls fields kept name = none ↔
      name ∉ kept.map (·.name) ∧ name ≠ cls ∧ name ∉ fields.map (·.name) := by
  unfold clash?
  constructor
  · intro h
    split at h
    · cases h
    · rename_i new
      split at h
      · cases h
      · rename_i other
        split at h
        · cases h
        · rename_i free
          exact ⟨(any_name_eq_false (·.name) kept name).mp (Bool.eq_false_iff.mpr new), other,
            (any_name_eq_false (·.name) fields name).mp (Bool.eq_false_iff.mpr free)⟩
  · rintro ⟨new, other, free⟩
    rw [(any_name_eq_false (·.name) kept name).mpr new,
      (any_name_eq_false (·.name) fields name).mpr free, if_neg other]
    simp

structure Kept (id : ClassId) (kept : List Method) (ms : List (MethodDecl .bare))
    (r : Found (List Method × List (MethodDecl .registered))) : Prop where
  kept_prefix : kept <+: r.value.1
  nodup : (r.value.1.map (·.name)).Nodup
  owner : ∀ k ∈ r.value.1, k.owner = id
  locals : ∀ k ∈ r.value.1, k.LocalsFit
  bare : r.value.2.map MethodDecl.bare = ms
  entered : r.findings = [] → ∀ m ∈ r.value.2, MethodEntered id r.value.1 m

theorem registerMethod_bare (m : MethodDecl .bare) (note : Option MethodRef) :
    (registerMethod m note).bare = m := by
  simp only [registerMethod, MethodDecl.bare, map_bare_unit, Expr.bare_unit]

theorem keepMethods_kept (cls : Name) (id : ClassId) (fields : List Field)
    (ms : List (MethodDecl .bare)) :
    ∀ kept : List Method, (kept.map (·.name)).Nodup → (∀ k ∈ kept, k.owner = id) →
      (∀ k ∈ kept, k.LocalsFit) →
      Kept id kept ms (keepMethods cls id fields kept ms) := by
  induction ms with
  | nil =>
    intro kept nodup owner locals
    exact ⟨List.prefix_refl _, nodup, owner, locals, rfl, fun _ m hm => by cases hm⟩
  | cons m ms ih =>
    intro kept nodup owner locals
    rw [keepMethods]
    split
    · have tail := ih kept nodup owner locals
      refine ⟨tail.kept_prefix, tail.nodup, tail.owner, tail.locals, ?_, fun h => by simp at h⟩
      simp only [Found.value_bind, Found.value_pure, List.map_cons, registerMethod_bare, tail.bare]
    · rename_i hclash
      have tail := ih (kept ++ [⟨m.name, m.line, id, m.returnTy, 0, [], none⟩])
        (nodup_map_append_singleton nodup (clash?_eq_none_iff.mp hclash).1) (by
          intro k hk
          rcases List.mem_append.mp hk with hk | hk
          · exact owner k hk
          · rw [List.mem_singleton.mp hk]) (by
          intro k hk
          rcases List.mem_append.mp hk with hk | hk
          · exact locals k hk
          · rw [List.mem_singleton.mp hk]
            exact ⟨Nat.le_refl 0, List.nodup_nil⟩)
      have grown := (List.prefix_append _ _).trans tail.kept_prefix
      refine ⟨grown, tail.nodup, tail.owner, tail.locals, ?_, ?_⟩
      · simp only [Found.value_bind, Found.value_pure, List.map_cons, registerMethod_bare,
          tail.bare]
      · intro clean k hk
        simp only [Found.findings_bind, Found.findings_pure, List.append_nil] at clean
        rcases List.mem_cons.mp hk with rfl | hk
        · refine ⟨kept.length, ⟨m.name, m.line, id, m.returnTy, 0, [], none⟩, rfl, ?_, rfl⟩
          obtain ⟨rest, hrest⟩ := tail.kept_prefix
          exact hrest ▸ by simp
        · exact tail.entered clean k hk

theorem parentOf_eq_some {t : ClassTable} (h : t.Indexed) {d : ClassDecl .bare} {p : ClassId}
    (hp : (parentOf t d).value = some p) : p < t.size ∧ t.isMain p = false := by
  unfold parentOf at hp
  split at hp
  · cases hp
  · split at hp
    · cases hp
    · split at hp
      · cases hp
      · rename_i q hq
        obtain ⟨k, hk, _⟩ := h.find?_eq_some_iff.mp hq
        split at hp
        · cases hp
        · rename_i hm
          have : q = p := by simpa using hp
          subst this
          exact ⟨lt_size_of_get? hk, Bool.eq_false_iff.mpr hm⟩

/-- A class declaration that was entered is left with the number of the class of its name, and its
methods with their places. -/
def ClassEntered (t : ClassTable) (c : ClassDecl .registered) : Prop :=
  ∃ id k, c.note = some id ∧ t.get? id = some k ∧ k.name = c.name ∧ t.isMain id = false ∧
    ∀ m ∈ c.methods, MethodEntered id (t.methods id) m

theorem unregistered_bare (d : ClassDecl .bare) : (unregistered d).bare = d := by
  have hm : d.methods.map (fun m => (registerMethod m none).bare) = d.methods := by
    rw [funext fun m => registerMethod_bare m none]
    exact List.map_id' d.methods
  simp only [unregistered, registerClass, ClassDecl.bare, List.map_map]
  exact congrArg (ClassDecl.mk d.line () d.name d.superclass d.fields) hm

structure Entry (t : ClassTable) (d : ClassDecl .bare)
    (r : Found (ClassTable × ClassDecl .registered)) : Prop where
  wellFormed : r.value.1.WellFormed
  locals : LocalsFit t → LocalsFit r.value.1
  old : ∀ {c k}, t.get? c = some k → r.value.1.get? c = some k
  bare : r.value.2.bare = d
  entered : r.findings = [] → ClassEntered r.value.1 r.value.2

/-- The class that a declaration becomes under the next number. -/
def newClass (t : ClassTable) (d : ClassDecl .bare) : Class :=
  let fields := (keepFields d.name [] d.fields).value
  { name := d.name, line := d.line, parent := (parentOf t d).value, fields
    methods := (keepMethods d.name t.size fields [] d.methods).value.1 }

theorem enter_new {t : ClassTable} {d : ClassDecl .bare} (h : t.find? d.name = none) :
    (enter t d).value = (t.push (newClass t d), registerClass d (some t.size)
      (keepMethods d.name t.size (newClass t d).fields [] d.methods).value.2) := by
  have value : (enter t d).value = ((t.add (newClass t d)).2, registerClass d (t.add (newClass t d)).1
      (keepMethods d.name t.size (newClass t d).fields [] d.methods).value.2) := by
    rw [enter, h]
    rfl
  rw [value, add_of_new h]

theorem enter_entry {t : ClassTable} (h : t.WellFormed) (d : ClassDecl .bare) :
    Entry t d (enter t d) := by
  cases name_new : t.find? d.name with
  | some c =>
    rw [enter, name_new]
    exact ⟨h, id, fun hk => hk, unregistered_bare d, fun hf => by simp at hf⟩
  | none =>
    have methods := keepMethods_kept d.name t.size (keepFields d.name [] d.fields).value
      d.methods []
      List.nodup_nil (fun k hk => by cases hk) (fun k hk => by cases hk)
    have pushed := wellFormed_push (k := newClass t d) h name_new rfl
      (fun p hp => parentOf_eq_some h.indexed hp) (keepFields_nodup d.name d.fields [] List.nodup_nil)
      methods.nodup methods.owner
    refine ⟨?_, ?_, ?_, ?_, ?_⟩
    · rw [enter_new name_new]
      exact pushed
    · intro locals c
      rw [enter_new name_new, methods_push]
      split
      · exact methods.locals
      · exact locals c
    · rw [enter_new name_new]
      exact get?_push_of_get?
    · have bare := methods.bare
      rw [enter_new name_new]
      simp only [registerClass, ClassDecl.bare, newClass, bare]
    · intro clean
      rw [enter_new name_new]
      rw [enter, name_new] at clean
      simp only [Found.findings_bind, Found.findings_pure, List.append_nil,
        List.append_eq_nil_iff] at clean
      refine ⟨t.size, newClass t d, rfl, by rw [get?_push, if_pos rfl], rfl, ?_, ?_⟩
      · rw [isMain_push, if_pos rfl]
        rfl
      · rw [methods_push, if_pos rfl]
        exact methods.entered clean.2.2

theorem ClassEntered.mono {t u : ClassTable} {c : ClassDecl .registered} (h : ClassEntered t c)
    (old : ∀ {c k}, t.get? c = some k → u.get? c = some k) : ClassEntered u c := by
  obtain ⟨id, k, note, hk, name, not_main, methods⟩ := h
  refine ⟨id, k, note, old hk, name, ?_, ?_⟩
  · rw [isMain, hk] at not_main
    rw [isMain, old hk, not_main]
  · have hm : u.methods id = t.methods id := by
      rw [ClassTable.methods, old hk, ClassTable.methods, hk]
    rw [hm]
    exact methods

structure Entries (t : ClassTable) (ds : List (ClassDecl .bare))
    (r : ClassTable × Report × List (ClassDecl .registered)) : Prop where
  wellFormed : r.1.WellFormed
  locals : LocalsFit t → LocalsFit r.1
  old : ∀ {c k}, t.get? c = some k → r.1.get? c = some k
  bare : r.2.2.map ClassDecl.bare = ds
  entered : r.2.1.Open → r.2.1.findings = [] → ∀ c ∈ r.2.2, ClassEntered r.1 c

theorem enterAll_addAll (ds : List (ClassDecl .bare)) :
    ∀ (t : ClassTable) (r : Report), ∃ fs, (enterAll t r ds).2.1 = r.addAll fs := by
  induction ds with
  | nil => intro t r; exact ⟨[], rfl⟩
  | cons d ds ih =>
    intro t r
    rw [enterAll]
    split
    · exact ⟨[], rfl⟩
    · obtain ⟨fs, hfs⟩ := ih (enter t d).value.1 (r.addAll (enter t d).findings)
      exact ⟨(enter t d).findings ++ fs, by rw [Report.addAll_append]; exact hfs⟩

theorem enterAll_entries (ds : List (ClassDecl .bare)) :
    ∀ (t : ClassTable) (r : Report), t.WellFormed → Entries t ds (enterAll t r ds) := by
  induction ds with
  | nil =>
    intro t r h
    exact ⟨h, id, fun hk => hk, rfl, fun _ _ c hc => by cases hc⟩
  | cons d ds ih =>
    intro t r h
    rw [enterAll]
    split
    · rename_i full
      refine ⟨h, id, fun hk => hk, ?_, ?_⟩
      · rw [List.map_map]
        exact (List.map_congr_left fun d _ => unregistered_bare d).trans (List.map_id' _)
      · intro hopen _
        rw [hopen.not_full] at full
        cases full
    · have first := enter_entry h d
      have rest := ih (enter t d).value.1 (r.addAll (enter t d).findings) first.wellFormed
      refine ⟨rest.wellFormed, fun locals => rest.locals (first.locals locals),
        fun hk => rest.old (first.old hk), ?_, ?_⟩
      · rw [List.map_cons, first.bare, rest.bare]
      · intro hopen clean c hc
        obtain ⟨fs, hfs⟩ := enterAll_addAll ds (enter t d).value.1 (r.addAll (enter t d).findings)
        rcases List.mem_cons.mp hc with rfl | hc
        · have before : (r.addAll (enter t d).findings).Open := (hfs ▸ hopen).of_addAll.1
          have empty := (Report.Open.findings_eq_nil_of_addAll (hfs ▸ hopen) (hfs ▸ clean)).1
          exact (first.entered (before.findings_eq_nil_of_addAll empty).2).mono rest.old
        · exact rest.entered hopen clean c hc

section MainOnly
variable (m : MainClass .bare) (c : ClassId)

theorem get?_mainOnly : (mainOnly m).get? c =
    if c = 0 then some { name := m.name, line := m.line, entry := some { param := m.param } }
    else none := by
  cases c with
  | zero => rfl
  | succ c => rfl

theorem parent?_mainOnly : (mainOnly m).parent? c = none := by
  rw [parent?, get?_mainOnly]
  split <;> rfl

theorem fields_mainOnly : (mainOnly m).fields c = [] := by
  rw [ClassTable.fields, get?_mainOnly]
  split <;> rfl

theorem methods_mainOnly : (mainOnly m).methods c = [] := by
  rw [ClassTable.methods, get?_mainOnly]
  split <;> rfl

end MainOnly

theorem wellFormed_mainOnly (m : MainClass .bare) : (mainOnly m).WellFormed := by
  refine ⟨indexed_empty.add _, ?_, ?_, ?_, parent?_mainOnly m 0, fields_mainOnly m 0,
    methods_mainOnly m 0, ?_, ?_, ?_⟩
  · intro c p hp
    rw [parent?_mainOnly] at hp
    cases hp
  · intro c p hp
    rw [parent?_mainOnly] at hp
    cases hp
  · intro c
    rw [isMain, get?_mainOnly]
    by_cases hc : c = 0
    · simp [hc, Class.isMain]
    · simp [hc]
  · intro c
    rw [fields_mainOnly]
    exact List.nodup_nil
  · intro c
    rw [methods_mainOnly]
    exact List.nodup_nil
  · intro c k hk
    rw [methods_mainOnly] at hk
    cases hk

theorem get?_withInherited (t : ClassTable) (c : ClassId) :
    (withInherited t).get? c = (t.get? c).map fun k => { k with inherited := inheritedOf t c } :=
  Array.getElem?_mapIdx

theorem parent?_withInherited (t : ClassTable) (c : ClassId) :
    (withInherited t).parent? c = t.parent? c := by
  rw [parent?, get?_withInherited, parent?]
  cases t.get? c <;> rfl

theorem isMain_withInherited (t : ClassTable) (c : ClassId) :
    (withInherited t).isMain c = t.isMain c := by
  rw [isMain, get?_withInherited, isMain]
  cases t.get? c <;> rfl

theorem fields_withInherited (t : ClassTable) (c : ClassId) :
    (withInherited t).fields c = t.fields c := by
  rw [ClassTable.fields, get?_withInherited, ClassTable.fields]
  cases t.get? c <;> rfl

theorem methods_withInherited (t : ClassTable) (c : ClassId) :
    (withInherited t).methods c = t.methods c := by
  rw [ClassTable.methods, get?_withInherited, ClassTable.methods]
  cases t.get? c <;> rfl

theorem names_withInherited (t : ClassTable) : (withInherited t).names = t.names := by
  apply List.ext_getElem?
  intro i
  rw [getElem?_names, get?_withInherited, getElem?_names]
  cases t.get? i <;> rfl

theorem wellFormed_withInherited {t : ClassTable} (h : t.WellFormed) :
    (withInherited t).WellFormed :=
  h.congr (parent?_withInherited t) (isMain_withInherited t) (fun _ => rfl) (names_withInherited t)
    (fun c => by rw [fields_withInherited]) (fun c => by rw [methods_withInherited])

theorem ClassEntered.withInherited {t : ClassTable} {c : ClassDecl .registered}
    (h : ClassEntered t c) : ClassEntered (withInherited t) c := by
  obtain ⟨id, k, note, hk, name, not_main, methods⟩ := h
  refine ⟨id, { k with inherited := inheritedOf t id }, note, ?_, name, ?_, ?_⟩
  · rw [get?_withInherited, hk]
    rfl
  · rw [isMain_withInherited, not_main]
  · rw [methods_withInherited]
    exact methods

/-- What the closure of inherited methods is computed from: parents, and names of methods. -/
theorem inheritedOf_congr {t u : ClassTable} (ancestors : ∀ c, u.ancestors c = t.ancestors c)
    (names : ∀ c, (u.methods c).map (·.name) = (t.methods c).map (·.name)) (c : ClassId) :
    inheritedOf u c = inheritedOf t c := by
  have own : ∀ n, u.ownMethod? c n = t.ownMethod? c n := by
    intro n
    have hf := congrArg (List.findIdx? (· == n)) (names c)
    simp only [List.findIdx?_map] at hf
    exact hf
  have from_one : ∀ kept a, inheritFrom u c a kept = inheritFrom t c a kept := by
    intro kept a
    let step : List Inherited → Name × Nat → List Inherited := fun kept n =>
      if (t.ownMethod? c n.1).isSome then kept else place ⟨n.1, ⟨a, n.2⟩⟩ kept
    have by_names : ∀ ms : List Method,
        ms.zipIdx.foldl (fun kept m =>
          if (t.ownMethod? c m.1.name).isSome then kept
          else place ⟨m.1.name, ⟨a, m.2⟩⟩ kept) kept =
        (ms.map (·.name)).zipIdx.foldl step kept := by
      intro ms
      rw [List.zipIdx_map, List.foldl_map]
      rfl
    rw [inheritFrom, inheritFrom]
    simp only [own]
    exact (by_names (u.methods a)).trans (names a ▸ (by_names (t.methods a)).symm)
  rw [inheritedOf, inheritedOf, ancestors c]
  simp only [from_one]

end MiniJava.Check

namespace MiniJava.ClassTable

/-- Every class lists the methods it takes over from its ancestors. -/
def InheritanceListed (t : ClassTable) : Prop :=
  ∀ {c k}, t.get? c = some k → k.inherited = Check.inheritedOf t c

theorem InheritanceListed.of_sameOutline {t u : ClassTable} (h : t.InheritanceListed)
    (ho : SameOutline t u) : u.InheritanceListed := by
  intro c k hk
  obtain ⟨l, hl, he⟩ := ho.symm.exists_get? hk
  have hi := congrArg Class.inherited he
  have hlists : k.inherited = l.inherited := hi.symm
  rw [hlists, h hl]
  exact (Check.inheritedOf_congr (fun c => (ho.ancestors c).symm)
    (fun c => (ho.methodNames c).symm) c).symm

end MiniJava.ClassTable

namespace MiniJava.Check

open ClassTable

theorem inheritanceListed_withInherited (t : ClassTable) : (withInherited t).InheritanceListed := by
  intro c k hk
  rw [get?_withInherited] at hk
  obtain ⟨l, _, rfl⟩ := Option.map_eq_some_iff.mp hk
  exact (inheritedOf_congr (fun c => climb_congr (parent?_withInherited t) c c)
    (fun c => by rw [methods_withInherited]) c).symm

/-- The table of any program is well-formed. -/
theorem hierarchy_wellFormed (limit : Option Nat) (p : Program .bare) :
    (hierarchy limit p).table.WellFormed :=
  wellFormed_withInherited
    (enterAll_entries p.classes _ _ (wellFormed_mainOnly p.main)).wellFormed

theorem hierarchy_inheritanceListed (limit : Option Nat) (p : Program .bare) :
    (hierarchy limit p).table.InheritanceListed :=
  inheritanceListed_withInherited _

theorem hierarchy_localsFit (limit : Option Nat) (p : Program .bare) :
    LocalsFit (hierarchy limit p).table := by
  have entries := enterAll_entries p.classes _ { limit } (wellFormed_mainOnly p.main)
  have base : LocalsFit (mainOnly p.main) := by
    intro c k hk
    rw [methods_mainOnly] at hk
    cases hk
  intro c
  exact methods_withInherited (enterAll (mainOnly p.main) { limit } p.classes).1 c ▸
    entries.locals base c

theorem hierarchy_bare (limit : Option Nat) (p : Program .bare) :
    (hierarchy limit p).program.bare = p := by
  have entries := enterAll_entries p.classes _ { limit } (wellFormed_mainOnly p.main)
  have hmain : MainClass.bare (N := .registered)
      ⟨p.main.line, p.main.name, p.main.param, p.main.vars, p.main.body⟩ = p.main := by
    simp only [MainClass.bare, map_bare_unit]
  exact congr (congrArg Program.mk hmain) entries.bare

theorem hierarchy_limit (limit : Option Nat) (p : Program .bare) :
    (hierarchy limit p).report.limit = limit := by
  obtain ⟨fs, hfs⟩ := enterAll_addAll p.classes (mainOnly p.main) { limit }
  exact (congrArg Report.limit hfs).trans (Report.limit_addAll _ fs)

/-- The first class is the main class, with its parameter and without locals so far. -/
theorem hierarchy_entry (limit : Option Nat) (p : Program .bare) :
    ((hierarchy limit p).table.get? 0).bind (·.entry) = some { param := p.main.param } := by
  have entries := enterAll_entries p.classes _ { limit } (wellFormed_mainOnly p.main)
  have hmain : (mainOnly p.main).get? 0 =
      some { name := p.main.name, line := p.main.line, entry := some { param := p.main.param } } :=
    rfl
  have table : (hierarchy limit p).table =
      withInherited (enterAll (mainOnly p.main) { limit } p.classes).1 := rfl
  rw [table, get?_withInherited, entries.old hmain]
  rfl

/-- Where nothing was reported, every class is entered. -/
theorem hierarchy_entered {limit : Option Nat} (positive : limit ≠ some 0) {p : Program .bare}
    (clean : (hierarchy limit p).report.findings = []) :
    ∀ c ∈ (hierarchy limit p).program.classes, ClassEntered (hierarchy limit p).table c := by
  intro c hc
  have entries := enterAll_entries p.classes _ { limit } (wellFormed_mainOnly p.main)
  have hopen : (hierarchy limit p).report.Open :=
    Or.inr ⟨clean, (hierarchy_limit limit p).symm ▸ positive⟩
  exact (entries.entered hopen clean c hc).withInherited

end MiniJava.Check
