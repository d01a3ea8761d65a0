import MiniJava.Check.Declarations
import MiniJava.Proofs.Hierarchy

/-!
# The declaration pass

Entering parameters and local variables keeps the outline of the class table. If nothing was
reported, the locals of `main` are its variables in order.
-/
namespace MiniJava.Check

open ClassTable

theorem keepLocals_extends (t : ClassTable) (method : Name) (taken : List Name) (init : Bool)
    (ds : List VarDecl) :
    ∀ kept, kept <+: (keepLocals t method taken init kept ds).value := by
  induction ds with
  | nil => intro kept; exact List.prefix_refl _
  | cons d ds ih =>
    intro kept
    rw [keepLocals, Found.value_bind]
    split
    · exact ih kept
    · exact (List.prefix_append _ _).trans (ih _)

/-- A local as it is declared. -/
def localOf (initialized : Bool) (d : VarDecl) : Local := ⟨d.name, d.ty, d.line, initialized⟩

/-- No name is kept twice. -/
theorem keepLocals_nodup (t : ClassTable) (method : Name) (taken : List Name) (init : Bool)
    (ds : List VarDecl) :
    ∀ kept, (kept.map (·.name)).Nodup →
      ((keepLocals t method taken init kept ds).value.map (·.name)).Nodup := by
  induction ds with
  | nil => exact fun _ nodup => nodup
  | cons d ds ih =>
    intro kept nodup
    rw [keepLocals, Found.value_bind]
    split
    · exact ih kept nodup
    · rename_i hnew
      rw [Bool.not_eq_true, Bool.or_eq_false_iff] at hnew
      exact ih _ (nodup_map_append_singleton nodup
        ((any_name_eq_false (·.name) kept d.name).mp hnew.2))

/-- Where nothing is reported, every variable is kept. -/
theorem keepLocals_clean (t : ClassTable) (method : Name) (taken : List Name) (init : Bool)
    (ds : List VarDecl) :
    ∀ kept, (keepLocals t method taken init kept ds).findings = [] →
      (keepLocals t method taken init kept ds).value = kept ++ ds.map (localOf init) := by
  induction ds with
  | nil => exact fun kept _ => (List.append_nil kept).symm
  | cons d ds ih =>
    intro kept clean
    rw [keepLocals, Found.findings_bind, List.append_eq_nil_iff] at clean
    have clean := clean.2
    rw [keepLocals, Found.value_bind]
    split at clean
    · simp at clean
    · rename_i hnew
      rw [if_neg hnew]
      exact (ih (kept ++ [localOf init d]) clean).trans (by simp)

theorem methodLocals_fit (t : ClassTable) (m : MethodDecl .registered) (k : Method) :
    Method.LocalsFit { k with
      paramCount := (methodLocals t m).value.1, locals := (methodLocals t m).value.2 } where
  params := (keepLocals_extends t m.name [] false m.vars _).length_le
  distinct := keepLocals_nodup t m.name [] false m.vars _
    (keepLocals_nodup t m.name [] true m.params [] List.nodup_nil)

/-- What the declaration pass leaves alone: the outline, and what `main` is. -/
structure Declares (t u : ClassTable) : Prop where
  outline : SameOutline u t
  locals : t.LocalsFit → u.LocalsFit
  entry : ∀ c, (u.get? c).bind (·.entry) = (t.get? c).bind (·.entry)

theorem Declares.refl (t : ClassTable) : Declares t t := ⟨.refl t, id, fun _ => rfl⟩

theorem Declares.trans {t u v : ClassTable} (h : Declares t u) (h' : Declares u v) :
    Declares t v :=
  ⟨h'.outline.trans h.outline, fun hp => h'.locals (h.locals hp),
    fun c => (h'.entry c).trans (h.entry c)⟩

/-- A change of one class that keeps its outline and what `main` is. -/
theorem declares_modify (t : ClassTable) (c : ClassId) {f : Class → Class}
    (outline : ∀ k, (f k).outline = k.outline) (entry : ∀ k, (f k).entry = k.entry)
    (locals : ∀ k, (∀ m ∈ k.methods, m.LocalsFit) → ∀ m ∈ (f k).methods, m.LocalsFit) :
    Declares t (t.modify c f) := by
  refine ⟨sameOutline_modify t c fun k _ => outline k, ?_, ?_⟩
  · intro fit d
    have before := fit d
    rw [ClassTable.methods] at before
    rw [ClassTable.methods, get?_modify]
    cases hk : t.get? d with
    | none =>
      intro m hm
      cases hm
    | some k =>
      rw [hk] at before
      by_cases hc : c = d
      · simpa [hc] using locals k before
      · simpa [hc] using before
  · intro d
    rw [get?_modify]
    cases t.get? d with
    | none => rfl
    | some k =>
      by_cases hc : c = d
      · simp [hc, entry]
      · simp [hc]

theorem declareMethods_declares (ms : List (MethodDecl .registered)) :
    ∀ t : ClassTable, Declares t (declareMethods t ms).value := by
  induction ms with
  | nil => intro t; exact .refl t
  | cons m ms ih =>
    intro t
    rw [declareMethods]
    split
    · exact ih t
    · rename_i ref _
      refine Declares.trans (declares_modify t ref.cls ?_ ?_ ?_) (ih _)
      · intro k
        have same := map_modify_eq Method.outline (fun method =>
          { method with paramCount := (methodLocals t m).value.1,
                        locals := (methodLocals t m).value.2 }) (fun _ => rfl) k.methods ref.index
        exact congrArg (fun ms => Class.mk k.name k.line k.parent (k.fields.map Field.outline) ms
          k.inherited (k.entry.map EntryPoint.outline)) same
      · intro k
        rfl
      · intro k fit n hn
        obtain ⟨i, hi, rfl⟩ := List.mem_iff_getElem.mp hn
        rw [List.getElem_modify]
        split
        · exact methodLocals_fit t m _
        · exact fit _ (List.getElem_mem _)

theorem declareClass_declares (strict : Bool) (t : ClassTable) (d : ClassDecl .registered) :
    Declares t (declareClass strict t d).value := by
  rw [declareClass]
  split
  · exact .refl t
  · refine Declares.trans (declares_modify t _ ?_ ?_ ?_) (declareMethods_declares d.methods _)
    · intro k
      simp only [Class.outline, initFields, List.map_map]
      rfl
    · intro k
      rfl
    · intro k fit
      exact fit

theorem declareClasses_declares (strict : Bool) (ds : List (ClassDecl .registered)) :
    ∀ (t : ClassTable) (r : Report), Declares t (declareClasses strict t r ds).1 := by
  induction ds with
  | nil => intro t r; exact .refl t
  | cons d ds ih =>
    intro t r
    rw [declareClasses]
    split
    · exact .refl t
    · exact (declareClass_declares strict t d).trans (ih _ _)

theorem declareClasses_addAll (strict : Bool) (ds : List (ClassDecl .registered)) :
    ∀ (t : ClassTable) (r : Report), ∃ fs, (declareClasses strict t r ds).2 = r.addAll fs := by
  induction ds with
  | nil => intro t r; exact ⟨[], rfl⟩
  | cons d ds ih =>
    intro t r
    rw [declareClasses]
    split
    · exact ⟨[], rfl⟩
    · obtain ⟨fs, hfs⟩ := ih (declareClass strict t d).value
        (r.addAll (declareClass strict t d).findings)
      exact ⟨(declareClass strict t d).findings ++ fs, by rw [Report.addAll_append]; exact hfs⟩

theorem declareMain_outline (t : ClassTable) (m : MainClass .registered) :
    SameOutline (declareMain t m).value t := by
  apply sameOutline_modify
  intro k _
  cases he : k.entry with
  | none => simp [Class.outline, he]
  | some e => simp [Class.outline, he, EntryPoint.outline]

theorem declareMain_localsFit {t : ClassTable} (h : t.LocalsFit) (m : MainClass .registered) :
    (declareMain t m).value.LocalsFit := by
  have methods : ∀ c, (declareMain t m).value.methods c = t.methods c := by
    intro c
    rw [declareMain, ClassTable.methods, Found.value_bind, Found.value_pure, get?_modify,
      ClassTable.methods]
    cases t.get? c with
    | none => rfl
    | some k =>
      by_cases hc : 0 = c
      · simp [hc]
      · simp [hc]
  intro c
  rw [methods c]
  exact h c

variable (strict : Bool) (p : Program .registered) (t : ClassTable) (r : Report)

theorem declarations_outline : SameOutline (declarations strict p t r).1 t :=
  (declareClasses_declares strict p.classes _ _).outline.trans (declareMain_outline t p.main)

theorem declarations_localsFit (h : t.LocalsFit) : (declarations strict p t r).1.LocalsFit :=
  (declareClasses_declares strict p.classes _ _).locals (declareMain_localsFit h p.main)

theorem declarations_addAll : ∃ fs, (declarations strict p t r).2 = r.addAll fs := by
  obtain ⟨fs, hfs⟩ := declareClasses_addAll strict p.classes (declareMain t p.main).value
    (r.addAll (declareMain t p.main).findings)
  exact ⟨(declareMain t p.main).findings ++ fs, by rw [Report.addAll_append]; exact hfs⟩

variable {strict p t r}

/-- If nothing was reported, `main` has its variables as locals, each with a name of its own. -/
theorem declarations_main {e : EntryPoint} (he : (t.get? 0).bind (·.entry) = some e)
    (hopen : (declarations strict p t r).2.Open)
    (clean : (declarations strict p t r).2.findings = []) :
    ((declarations strict p t r).1.get? 0).bind (·.entry) =
        some { e with locals := p.main.vars.map (localOf false) } ∧
      (p.main.vars.map (·.name)).Nodup := by
  obtain ⟨fs, hfs⟩ := declareClasses_addAll strict p.classes (declareMain t p.main).value
    (r.addAll (declareMain t p.main).findings)
  have before := (Report.Open.findings_eq_nil_of_addAll (hfs ▸ hopen) (hfs ▸ clean)).1
  have mid : (r.addAll (declareMain t p.main).findings).Open := (hfs ▸ hopen).of_addAll.1
  have quiet : (declareMain t p.main).findings = [] := (mid.findings_eq_nil_of_addAll before).2
  rw [declareMain, Found.findings_bind, Found.findings_pure, List.append_nil] at quiet
  have value := keepLocals_clean t "main" [p.main.param] false p.main.vars [] quiet
  have nodup := keepLocals_nodup t "main" [p.main.param] false p.main.vars [] List.nodup_nil
  constructor
  · refine ((declareClasses_declares strict p.classes _ _).entry 0).trans ?_
    rw [declareMain, Found.value_bind, Found.value_pure, get?_modify, value]
    obtain ⟨k, hk, hke⟩ := Option.bind_eq_some_iff.mp he
    rw [hk]
    simp [hke]
  · rw [value] at nodup
    simpa [localOf, Function.comp_def] using nodup

end MiniJava.Check
