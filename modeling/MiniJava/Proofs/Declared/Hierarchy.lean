import MiniJava.Proofs.Declared.Rules
import MiniJava.Proofs.Limits.Passes

/-!
# The hierarchy of a well-declared program

Where nothing is dropped, entering a class reports nothing exactly if the class may follow the ones
before it. The table then has one more class, whose members are those of the declaration in order,
and the declaration is left with the numbers of the class and of its methods.
-/
namespace MiniJava.Check

open ClassTable

/-- Every field is kept exactly if the names are different. -/
theorem keepFields_eq_nil_iff (cls : Name) (ds : List VarDecl) :
    ∀ kept : List Field, (kept.map (·.name)).Nodup →
      ((keepFields cls kept ds).findings = [] ↔
        (kept.map (·.name) ++ ds.map (·.name)).Nodup) := by
  induction ds with
  | nil => exact fun kept nodup => ⟨fun _ => by simpa using nodup, fun _ => rfl⟩
  | cons d ds ih =>
    intro kept nodup
    rw [keepFields]
    split
    · rename_i known
      have taken : d.name ∈ kept.map (·.name) := by simpa using known
      refine ⟨fun clean => by simp at clean, fun distinct => ?_⟩
      exact absurd rfl ((List.nodup_append.mp distinct).2.2 _ taken _ List.mem_cons_self)
    · rename_i new
      have free : d.name ∉ kept.map (·.name) :=
        (any_name_eq_false (·.name) kept d.name).mp (Bool.eq_false_iff.mpr new)
      rw [ih _ (nodup_map_append_singleton nodup free)]
      simp

theorem keepFields_of_clean (cls : Name) (ds : List VarDecl) :
    ∀ kept : List Field, (keepFields cls kept ds).findings = [] →
      (keepFields cls kept ds).value = kept ++ ds.map (fieldOf false) := by
  induction ds with
  | nil => exact fun kept _ => (List.append_nil kept).symm
  | cons d ds ih =>
    intro kept clean
    rw [keepFields] at clean ⊢
    split at clean
    · simp at clean
    · rename_i new
      rw [if_neg new]
      exact (ih (kept ++ [fieldOf false d]) clean).trans (by simp)

/-- Every method is kept exactly if the names are different and none is taken by the class or by a
field. -/
theorem keepMethods_eq_nil_iff (cls : Name) (id : ClassId) (fields : List Field)
    (ms : List (MethodDecl .bare)) :
    ∀ kept : List Method, (kept.map (·.name)).Nodup →
      ((keepMethods cls id fields kept ms).findings = [] ↔
        (kept.map (·.name) ++ ms.map (·.name)).Nodup ∧
          ∀ m ∈ ms, m.name ≠ cls ∧ m.name ∉ fields.map (·.name)) := by
  induction ms with
  | nil =>
    intro kept nodup
    exact ⟨fun _ => ⟨by simpa using nodup, fun m hm => by cases hm⟩, fun _ => rfl⟩
  | cons m ms ih =>
    intro kept nodup
    rw [keepMethods]
    split
    · rename_i e clash
      refine ⟨fun clean => by simp at clean, ?_⟩
      rintro ⟨distinct, free⟩
      have fits : clash? cls fields kept m.name = none := by
        refine clash?_eq_none_iff.mpr ⟨fun taken => ?_, free m List.mem_cons_self⟩
        exact (List.nodup_append.mp distinct).2.2 _ taken _ List.mem_cons_self rfl
      rw [fits] at clash
      cases clash
    · rename_i fits
      obtain ⟨new, free⟩ := clash?_eq_none_iff.mp fits
      have tail := ih (kept ++ [headOf id m]) (nodup_map_append_singleton nodup new)
      rw [Found.findings_bind, Found.findings_pure, List.append_nil]
      refine tail.trans ?_
      rw [List.forall_mem_cons, and_iff_right free]
      simp [headOf]

/-- The methods of a class that is entered, each with its place. -/
def placedMethods (id : ClassId) (start : Nat) (ms : List (MethodDecl .bare)) :
    List (MethodDecl .registered) :=
  ms.mapIdx fun i m => registerMethod m (some ⟨id, start + i⟩)

theorem placedMethods_cons (id : ClassId) (start : Nat) (m : MethodDecl .bare)
    (ms : List (MethodDecl .bare)) :
    placedMethods id start (m :: ms) =
      registerMethod m (some ⟨id, start⟩) :: placedMethods id (start + 1) ms := by
  simp only [placedMethods, List.mapIdx_cons, Nat.add_zero, Nat.add_assoc, Nat.add_comm 1]

theorem keepMethods_of_clean (cls : Name) (id : ClassId) (fields : List Field)
    (ms : List (MethodDecl .bare)) :
    ∀ kept : List Method, (keepMethods cls id fields kept ms).findings = [] →
      (keepMethods cls id fields kept ms).value =
        (kept ++ ms.map (headOf id), placedMethods id kept.length ms) := by
  induction ms with
  | nil => exact fun kept _ => congrArg (·, []) (List.append_nil kept).symm
  | cons m ms ih =>
    intro kept clean
    rw [keepMethods] at clean ⊢
    split at clean
    · simp at clean
    · rename_i fits
      rw [Found.findings_bind, Found.findings_pure, List.append_nil] at clean
      have tail := ih (kept ++ [headOf id m]) clean
      rw [List.length_append, List.length_singleton] at tail
      rw [placedMethods_cons, List.map_cons]
      simp only [Found.value_bind, Found.value_pure]
      exact Prod.ext ((congrArg Prod.fst tail).trans (by simp))
        (congrArg (_ :: ·) (congrArg Prod.snd tail))

/-- The class that a declaration becomes. -/
def enteredClass (c : ClassId) (parent : Option ClassId) (d : ClassDecl .bare) : Class :=
  { name := d.name
    line := d.line
    parent
    fields := d.fields.map (fieldOf false)
    methods := d.methods.map (headOf c) }

/-- The declaration with its numbers. -/
def numberedClass (c : ClassId) (d : ClassDecl .bare) : ClassDecl .registered :=
  registerClass d (some c) (placedMethods c 0 d.methods)

/-- Declarations with the numbers that follow one after the other. -/
def numberedFrom (start : ClassId) (ds : List (ClassDecl .bare)) : List (ClassDecl .registered) :=
  ds.mapIdx fun i d => numberedClass (start + i) d

theorem numberedFrom_cons (start : ClassId) (d : ClassDecl .bare) (ds : List (ClassDecl .bare)) :
    numberedFrom start (d :: ds) = numberedClass start d :: numberedFrom (start + 1) ds := by
  simp only [numberedFrom, List.mapIdx_cons, Nat.add_zero, Nat.add_assoc, Nat.add_comm 1]

/-- What holds of every member of a list and of those before it, first of the first member. -/
theorem forall_split_cons {α : Type} {P : List α → α → Prop} {a : α} {as : List α} :
    (∀ front b back, a :: as = front ++ b :: back → P front b) ↔
      P [] a ∧ ∀ front b back, as = front ++ b :: back → P (a :: front) b := by
  constructor
  · intro h
    refine ⟨h [] a as rfl, fun front b back split => h (a :: front) b back ?_⟩
    rw [split, List.cons_append]
  · rintro ⟨first, rest⟩ front b back split
    cases front with
    | nil =>
      obtain ⟨rfl, _⟩ := List.cons.inj split
      exact first
    | cons c front =>
      obtain ⟨rfl, tail⟩ := List.cons.inj split
      exact rest front b back tail

/-- The main class and the classes declared so far, each with the parent that it names. -/
structure Enters (main : MainClass .bare) (before : List (ClassDecl .bare)) (t : ClassTable) :
    Prop where
  wellFormed : t.WellFormed
  size : t.size = before.length + 1
  main : t.get? 0 =
    some { name := main.name, line := main.line, entry := some { param := main.param } }
  classes : ∀ {i d}, before[i]? = some d → ∃ parent, ParentOf (before.take i) d parent ∧
    t.get? (i + 1) = some (enteredClass (i + 1) parent d)

namespace Enters
variable {main : MainClass .bare} {before : List (ClassDecl .bare)} {t : ClassTable}

theorem mainOnly (main : MainClass .bare) : Enters main [] (mainOnly main) :=
  ⟨wellFormed_mainOnly main, rfl, rfl, fun h => by simp at h⟩

theorem name_at (h : Enters main before t) (i : Nat) :
    (t.get? (i + 1)).map (·.name) = (before[i]?).map (·.name) := by
  cases hd : before[i]? with
  | some d =>
    obtain ⟨parent, _, get⟩ := h.classes hd
    rw [get]
    rfl
  | none =>
    have beyond : t.size ≤ i + 1 := by
      rw [h.size]
      exact Nat.succ_le_succ (List.getElem?_eq_none_iff.mp hd)
    rw [ClassTable.get?, Array.getElem?_eq_none beyond]
    rfl

theorem names (h : Enters main before t) : t.names = main.name :: before.map (·.name) := by
  apply List.ext_getElem?
  intro c
  rw [getElem?_names]
  cases c with
  | zero =>
    rw [h.main]
    rfl
  | succ i =>
    rw [h.name_at, List.getElem?_cons_succ, List.getElem?_map]

/-- The classes other than the main class are those declared so far. -/
theorem find?_iff (h : Enters main before t) {s : Name} :
    (∃ p, t.find? s = some p ∧ t.isMain p = false) ↔ s ∈ before.map (·.name) := by
  constructor
  · rintro ⟨p, found, other⟩
    obtain ⟨k, hk, rfl⟩ := h.wellFormed.find?_eq_some_iff.mp found
    cases p with
    | zero => exact absurd (h.wellFormed.isMain_iff.mpr rfl) (Bool.eq_false_iff.mp other)
    | succ i =>
      have name := h.name_at i
      rw [hk] at name
      obtain ⟨d, hd, same⟩ := Option.map_eq_some_iff.mp name.symm
      exact List.mem_map.mpr ⟨d, List.mem_of_getElem? hd, same⟩
  · intro known
    obtain ⟨d, hd, rfl⟩ := List.mem_map.mp known
    obtain ⟨i, hi⟩ := List.mem_iff_getElem?.mp hd
    obtain ⟨parent, _, get⟩ := h.classes hi
    refine ⟨i + 1, h.wellFormed.find?_eq_some_iff.mpr ⟨_, get, rfl⟩, ?_⟩
    exact Bool.eq_false_iff.mpr fun main => by simpa using h.wellFormed.isMain_iff.mp main

/-- A class is found only if it is the main class or one of those before. -/
theorem parentOf_eq_nil_iff (h : Enters main before t) {d : ClassDecl .bare}
    (new : d.name ∉ t.names) :
    (parentOf t d).findings = [] ↔ ∀ s, d.superclass = some s → s ∈ before.map (·.name) := by
  unfold parentOf
  cases hs : d.superclass with
  | none => simp
  | some s =>
    simp only [Option.some.injEq, forall_eq']
    rw [← h.find?_iff]
    by_cases self : s = d.name
    · simp only [self, if_true, Found.findings_bind, findings_report,
        h.wellFormed.indexed.find?_eq_none_iff.mpr new]
      simp
    · rw [if_neg self]
      cases found : t.find? s with
      | none => simp
      | some p => cases hm : t.isMain p <;> simp [hm]

theorem parentOf_of_clean (h : Enters main before t) {d : ClassDecl .bare}
    (clean : (parentOf t d).findings = []) : ParentOf before d (parentOf t d).value := by
  unfold parentOf at clean ⊢
  unfold ParentOf
  cases hs : d.superclass with
  | none => rfl
  | some s =>
    simp only [hs] at clean
    by_cases self : s = d.name
    · simp [self] at clean
    · rw [if_neg self] at clean
      simp only [if_neg self]
      cases found : t.find? s with
      | none => simp [found] at clean
      | some p =>
        cases hm : t.isMain p with
        | true => simp [found, hm] at clean
        | false =>
          obtain ⟨k, hk, rfl⟩ := h.wellFormed.find?_eq_some_iff.mp found
          cases p with
          | zero => exact absurd (h.wellFormed.isMain_iff.mpr rfl) (Bool.eq_false_iff.mp hm)
          | succ j =>
            have name := h.name_at j
            rw [hk] at name
            obtain ⟨e, he, same⟩ := Option.map_eq_some_iff.mp name.symm
            exact ⟨j, e, he, same, by simp [hm]⟩

/-- Entering a class is silent exactly if the class may follow the others. -/
theorem enter_eq_nil_iff (h : Enters main before t) (d : ClassDecl .bare) :
    (enter t d).findings = [] ↔ d.Follows main.name before := by
  rw [enter]
  cases found : t.find? d.name with
  | some c =>
    have known : d.name ∈ t.names :=
      h.wellFormed.indexed.find?_isSome_iff.mp (by rw [found]; rfl)
    rw [h.names] at known
    exact ⟨fun clean => by simp at clean, fun follows => absurd known follows.new⟩
  | none =>
    have new := h.wellFormed.indexed.find?_eq_none_iff.mp found
    simp only [Found.findings_bind, Found.findings_pure, List.append_nil,
      List.append_eq_nil_iff, h.parentOf_eq_nil_iff new]
    have fields := keepFields_eq_nil_iff d.name d.fields [] List.nodup_nil
    rw [keepMethods_eq_nil_iff d.name t.size _ d.methods [] List.nodup_nil]
    simp only [List.map_nil, List.nil_append] at fields ⊢
    have kept : (keepFields d.name [] d.fields).findings = [] →
        (keepFields d.name [] d.fields).value.map (·.name) = d.fields.map (·.name) := by
      intro clean
      rw [keepFields_of_clean d.name d.fields [] clean]
      simp [fieldOf]
    constructor
    · rintro ⟨clean, superclass, methods, free⟩
      rw [kept clean] at free
      exact ⟨h.names ▸ new, superclass,
        ⟨fields.mp clean, methods, fun m hm => (free m hm).1, fun m hm => (free m hm).2⟩⟩
    · rintro ⟨_, superclass, members⟩
      have clean := fields.mpr members.fields
      rw [kept clean]
      exact ⟨clean, superclass, members.methods,
        fun m hm => ⟨members.not_class m hm, members.not_field m hm⟩⟩

theorem enter_of_clean (h : Enters main before t) {d : ClassDecl .bare}
    (clean : (enter t d).findings = []) :
    ∃ parent, ParentOf before d parent ∧
      (enter t d).value =
        (t.push (enteredClass t.size parent d), numberedClass t.size d) := by
  have follows := (h.enter_eq_nil_iff d).mp clean
  have found : t.find? d.name = none :=
    h.wellFormed.indexed.find?_eq_none_iff.mpr (h.names ▸ follows.new)
  rw [enter_new found]
  rw [enter, found] at clean
  simp only [Found.findings_bind, Found.findings_pure, List.append_nil,
    List.append_eq_nil_iff] at clean
  obtain ⟨fields, parent, methods⟩ := clean
  refine ⟨_, h.parentOf_of_clean parent, ?_⟩
  rw [newClass, keepMethods_of_clean _ _ _ _ _ methods, keepFields_of_clean _ _ _ fields]
  rfl

/-- One more class has been entered. -/
theorem push (h : Enters main before t) {d : ClassDecl .bare} {parent : Option ClassId}
    (hp : ParentOf before d parent)
    (wf : (t.push (enteredClass t.size parent d)).WellFormed) :
    Enters main (before ++ [d]) (t.push (enteredClass t.size parent d)) where
  wellFormed := wf
  size := by
    rw [ClassTable.size, ClassTable.push, Array.size_push, List.length_append]
    exact congrArg Nat.succ h.size
  main := get?_push_of_get? h.main
  classes := by
    intro i e he
    by_cases old : i < before.length
    · rw [List.getElem?_append_left old] at he
      obtain ⟨parent', hp', get⟩ := h.classes he
      refine ⟨parent', ?_, get?_push_of_get? get⟩
      rw [List.take_append_of_le_length (Nat.le_of_lt old)]
      exact hp'
    · obtain ⟨rfl, rfl⟩ : i = before.length ∧ e = d := by
        rw [List.getElem?_append_right (Nat.le_of_not_lt old)] at he
        obtain ⟨hi, hd⟩ := List.getElem?_eq_some_iff.mp he
        simp only [List.length_singleton] at hi
        exact ⟨by omega, by simpa using hd.symm⟩
      refine ⟨parent, ?_, ?_⟩
      · rw [List.take_left]
        exact hp
      · rw [get?_push, h.size, if_pos rfl]

/-- A class that is entered silently joins the others. -/
theorem enter (h : Enters main before t) {d : ClassDecl .bare}
    (clean : (Check.enter t d).findings = []) :
    Enters main (before ++ [d]) (Check.enter t d).value.1 ∧
      (Check.enter t d).value.2 = numberedClass (before.length + 1) d := by
  obtain ⟨parent, hp, value⟩ := h.enter_of_clean clean
  have wf := (enter_entry h.wellFormed d).wellFormed
  rw [value] at wf ⊢
  exact ⟨h.push hp wf, congrArg (numberedClass · d) h.size⟩

/-- Classes are entered silently exactly if each may follow those before it. -/
theorem enterEach_eq_nil_iff (ds : List (ClassDecl .bare)) :
    ∀ {before t}, Enters main before t →
      ((enterEach t ds).findings = [] ↔
        ∀ front d back, ds = front ++ d :: back → d.Follows main.name (before ++ front)) := by
  induction ds with
  | nil =>
    intro before t h
    exact ⟨fun _ front d back split => by simp at split, fun _ => rfl⟩
  | cons d ds ih =>
    intro before t h
    rw [enterEach, List.append_eq_nil_iff]
    refine Iff.trans ?_ (forall_split_cons (P := fun front (e : ClassDecl .bare) =>
      e.Follows main.name (before ++ front))).symm
    rw [List.append_nil, ← h.enter_eq_nil_iff]
    refine and_congr_right fun clean => ?_
    simpa using ih (h.enter clean).1

theorem enterEach_of_clean (ds : List (ClassDecl .bare)) :
    ∀ {before t}, Enters main before t → (enterEach t ds).findings = [] →
      Enters main (before ++ ds) (enterEach t ds).value.1 ∧
        (enterEach t ds).value.2 = numberedFrom (before.length + 1) ds := by
  induction ds with
  | nil =>
    intro before t h _
    exact ⟨(List.append_nil before).symm ▸ h, rfl⟩
  | cons d ds ih =>
    intro before t h clean
    rw [enterEach, List.append_eq_nil_iff] at clean
    obtain ⟨first, number⟩ := h.enter clean.1
    obtain ⟨rest, numbers⟩ := ih first clean.2
    rw [List.append_assoc] at rest
    rw [List.length_append, List.length_singleton] at numbers
    refine ⟨rest, ?_⟩
    rw [numberedFrom_cons, ← number, ← numbers]
    rfl

end Enters

/-- The hierarchy reports nothing exactly if the program keeps its rules. -/
theorem hierarchy_eq_nil_iff (p : Program .bare) :
    (hierarchy none p).report.findings = [] ↔ p.HierarchyRules := by
  have whole := (hierarchyFrom_truncates p).findings_of_unlimited
  have each := (Enters.mainOnly p.main).enterEach_eq_nil_iff p.classes
  rw [Program.hierarchyRules_iff]
  exact (iff_of_eq (congrArg (· = []) whole)).trans each

/-- What the hierarchy leaves where it reports nothing. -/
theorem hierarchy_of_clean {p : Program .bare} (clean : (hierarchy none p).report.findings = []) :
    ∃ t, Enters p.main p.classes t ∧ (hierarchy none p).table = withInherited t ∧
      (hierarchy none p).program.classes = numberedFrom 1 p.classes := by
  have whole := hierarchyFrom_truncates p
  have silent : (wholeHierarchy p).findings = [] := whole.findings_of_unlimited ▸ clean
  have value := congrArg Prod.fst whole.eq_of_unlimited
  obtain ⟨table, classes⟩ := (Enters.mainOnly p.main).enterEach_of_clean p.classes silent
  exact ⟨_, table, congrArg Prod.fst value,
    (congrArg (fun x => (Prod.snd x).classes) value).trans classes⟩

end MiniJava.Check
