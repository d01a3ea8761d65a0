import MiniJava.Proofs.Declared.Hierarchy

/-!
# The declarations of a well-declared program

Once the hierarchy is right, declaring a class reports nothing exactly if its types exist and the
locals of each of its methods have different names. Then its methods have their parameters and
variables, and no other class has changed.
-/
namespace MiniJava.Check

open ClassTable

theorem checkTy_eq_nil_iff {t : ClassTable} (h : t.Indexed) {line : Nat} {ty : Ty} :
    (checkTy t line ty).findings = [] ↔ ty.DeclaredIn t.names := by
  cases ty with
  | object name =>
    rw [checkTy, Ty.DeclaredIn]
    simp only [Ty.object.injEq, forall_eq', ← h.find?_isSome_iff]
    cases t.find? name <;> simp
  | _ => exact ⟨fun _ n h => (by cases h), fun _ => rfl⟩

theorem checkTys_eq_nil_iff {t : ClassTable} (h : t.Indexed) (ds : List VarDecl) :
    (checkTys t ds).findings = [] ↔ ∀ d ∈ ds, d.ty.DeclaredIn t.names := by
  induction ds with
  | nil => exact ⟨fun _ d hd => (by cases hd), fun _ => rfl⟩
  | cons d ds ih =>
    rw [checkTys, Found.findings_bind, List.append_eq_nil_iff, checkTy_eq_nil_iff h, ih,
      List.forall_mem_cons]

/-- Every variable is kept exactly if the types exist and the names are free and different. -/
theorem keepLocals_eq_nil_iff {t : ClassTable} (h : t.Indexed) (method : Name) (taken : List Name)
    (init : Bool) (ds : List VarDecl) :
    ∀ kept : List Local, (kept.map (·.name)).Nodup →
      ((keepLocals t method taken init kept ds).findings = [] ↔
        (∀ d ∈ ds, d.ty.DeclaredIn t.names) ∧ (∀ d ∈ ds, d.name ∉ taken) ∧
          (kept.map (·.name) ++ ds.map (·.name)).Nodup) := by
  induction ds with
  | nil => exact fun kept nodup => ⟨fun _ => by simpa using nodup, fun _ => rfl⟩
  | cons d ds ih =>
    intro kept nodup
    rw [keepLocals, Found.findings_bind, List.append_eq_nil_iff, checkTy_eq_nil_iff h,
      List.forall_mem_cons, List.forall_mem_cons, and_assoc]
    refine and_congr_right fun _ => ?_
    split
    · rename_i known
      refine ⟨fun clean => by simp at clean, ?_⟩
      rintro ⟨_, ⟨free, _⟩, distinct⟩
      have old : d.name ∈ kept.map (·.name) := by simpa [free] using known
      exact absurd rfl ((List.nodup_append.mp distinct).2.2 _ old _ List.mem_cons_self)
    · rename_i new
      rw [Bool.not_eq_true, Bool.or_eq_false_iff] at new
      have free : d.name ∉ taken := by simpa using new.1
      have tail := ih (kept ++ [localOf init d]) (nodup_map_append_singleton nodup
        ((any_name_eq_false (·.name) kept d.name).mp new.2))
      refine tail.trans ?_
      rw [and_iff_right free]
      simp [localOf]

theorem map_name_localOf (init : Bool) (ds : List VarDecl) :
    (ds.map (localOf init)).map (·.name) = ds.map (·.name) := by
  rw [List.map_map]
  rfl

theorem methodLocals_eq_nil_iff {t : ClassTable} (h : t.Indexed) (m : MethodDecl .registered) :
    (methodLocals t m).findings = [] ↔ m.DeclarationRules t.names := by
  have params := keepLocals_eq_nil_iff h m.name [] true m.params [] List.nodup_nil
  have vars := keepLocals_eq_nil_iff h m.name [] false m.vars _
    (keepLocals_nodup t m.name [] true m.params [] List.nodup_nil)
  have kept : (keepLocals t m.name [] true [] m.params).findings = [] →
      (keepLocals t m.name [] true [] m.params).value.map (·.name) = m.params.map (·.name) := by
    intro clean
    rw [keepLocals_clean t m.name [] true m.params [] clean, List.nil_append, map_name_localOf]
  simp only [List.map_nil, List.nil_append, List.not_mem_nil, not_false_eq_true, implies_true,
    true_and] at params vars
  simp only [methodLocals, Found.findings_bind, Found.findings_pure, List.append_nil,
    List.append_eq_nil_iff, checkTy_eq_nil_iff h]
  constructor
  · rintro ⟨returnTy, cleanParams, cleanVars⟩
    have distinct := (vars.mp cleanVars).2
    rw [kept cleanParams, ← List.map_append] at distinct
    exact ⟨returnTy, List.forall_mem_append.mpr ⟨(params.mp cleanParams).1, (vars.mp cleanVars).1⟩,
      distinct⟩
  · rintro ⟨returnTy, types, distinct⟩
    obtain ⟨typesParams, typesVars⟩ := List.forall_mem_append.mp types
    rw [List.map_append] at distinct
    have cleanParams := params.mpr ⟨typesParams, (List.nodup_append.mp distinct).1⟩
    exact ⟨returnTy, cleanParams, vars.mpr ⟨typesVars, (kept cleanParams).symm ▸ distinct⟩⟩

theorem methodLocals_of_clean {t : ClassTable} {m : MethodDecl .registered}
    (clean : (methodLocals t m).findings = []) :
    (methodLocals t m).value =
      (m.params.length, m.params.map (localOf true) ++ m.vars.map (localOf false)) := by
  simp only [methodLocals, Found.findings_bind, Found.findings_pure, List.append_nil,
    List.append_eq_nil_iff] at clean
  obtain ⟨_, params, vars⟩ := clean
  simp only [methodLocals, Found.value_bind, Found.value_pure]
  rw [keepLocals_clean _ _ _ _ _ _ vars, keepLocals_clean _ _ _ _ _ _ params]
  simp

theorem names_modifyMethod (t : ClassTable) (r : MethodRef) (f : Method → Method) :
    (t.modifyMethod r f).names = t.names := names_modify t r.cls fun _ => rfl

theorem registerMethod_rules {names : List Name} {m : MethodDecl .bare}
    {note : Option MethodRef} :
    (registerMethod m note).DeclarationRules names ↔ m.DeclarationRules names :=
  ⟨fun h => ⟨h.returnTy, h.types, h.distinct⟩, fun h => ⟨h.returnTy, h.types, h.distinct⟩⟩

/-- Declaring one method after the others. -/
theorem declareMethods_cons (t : ClassTable) (c : ClassId) (start : Nat) (m : MethodDecl .bare)
    (ms : List (MethodDecl .bare)) :
    let locals := methodLocals t (registerMethod m (some ⟨c, start⟩))
    let rest := declareMethods (t.modifyMethod ⟨c, start⟩ fun method =>
      { method with paramCount := locals.value.1, locals := locals.value.2 })
      (placedMethods c (start + 1) ms)
    declareMethods t (placedMethods c start (m :: ms)) =
      ⟨rest.value, locals.findings ++ rest.findings⟩ := by
  rw [placedMethods_cons, declareMethods]
  rfl

/-- Numbered methods are declared silently exactly if each keeps the rules. -/
theorem declareMethods_eq_nil_iff (c : ClassId) (ms : List (MethodDecl .bare)) :
    ∀ (start : Nat) {t : ClassTable}, t.Indexed →
      ((declareMethods t (placedMethods c start ms)).findings = [] ↔
        ∀ m ∈ ms, m.DeclarationRules t.names) := by
  induction ms with
  | nil => exact fun _ t _ => ⟨fun _ m hm => (by cases hm), fun _ => rfl⟩
  | cons m ms ih =>
    intro start t h
    rw [declareMethods_cons, List.append_eq_nil_iff, methodLocals_eq_nil_iff h,
      registerMethod_rules, ih _ (h.modifyMethod _ _), names_modifyMethod, List.forall_mem_cons]

theorem modify_append {α : Type} (f : α → α) (xs : List α) (a : α) (ys : List α) :
    (xs ++ a :: ys).modify xs.length f = xs ++ f a :: ys := by
  induction xs with
  | nil => rfl
  | cons x xs ih => simp [ih]

/-- Methods that are declared silently have their locals, and nothing else has changed. -/
theorem declareMethods_get? (c : ClassId) (ms : List (MethodDecl .bare)) :
    ∀ (done : List Method) {t : ClassTable} {k : Class}, t.get? c = some k →
      k.methods = done ++ ms.map (headOf c) →
      (declareMethods t (placedMethods c done.length ms)).findings = [] → ∀ x,
        (declareMethods t (placedMethods c done.length ms)).value.get? x =
          if c = x then some { k with methods := done ++ ms.map (methodOf c) } else t.get? x := by
  induction ms with
  | nil =>
    intro done t k hk methods _ x
    rw [List.map_nil] at methods ⊢
    rw [← methods]
    split
    · rename_i here
      exact here ▸ hk
    · rfl
  | cons m ms ih =>
    intro done t k hk methods clean x
    rw [declareMethods_cons] at clean ⊢
    obtain ⟨first, rest⟩ := List.append_eq_nil_iff.mp clean
    have locals := methodLocals_of_clean first
    rw [locals] at rest ⊢
    let f : Method → Method := fun method =>
      { method with
        paramCount := m.params.length
        locals := m.params.map (localOf true) ++ m.vars.map (localOf false) }
    have next : (t.modifyMethod ⟨c, done.length⟩ f).get? c =
        some { k with methods := (done ++ [methodOf c m]) ++ ms.map (headOf c) } := by
      rw [modifyMethod, get?_modify, hk, Option.map_some, if_pos rfl, methods, List.map_cons,
        modify_append, List.append_assoc]
      rfl
    have tail := ih (done ++ [methodOf c m]) next rfl
    rw [List.length_append, List.length_singleton] at tail
    refine (tail rest x).trans ?_
    rw [modifyMethod, get?_modify]
    split
    · simp
    · cases t.get? x <;> rfl

/-- A class after its members have been declared. -/
def declaredClass (strict : Bool) (c : ClassId) (d : ClassDecl .bare) (k : Class) : Class :=
  { initFields strict k with methods := d.methods.map (methodOf c) }

theorem numberedClass_rules {names : List Name} {c : ClassId} {d : ClassDecl .bare} :
    (∀ v ∈ (numberedClass c d).fields, v.ty.DeclaredIn names) ∧
      (∀ m ∈ d.methods, m.DeclarationRules names) ↔ d.DeclarationRules names :=
  ⟨fun h => ⟨h.1, h.2⟩, fun h => ⟨h.fields, h.methods⟩⟩

theorem declareClass_eq_nil_iff (strict : Bool) {t : ClassTable} (h : t.Indexed) (c : ClassId)
    (d : ClassDecl .bare) :
    (declareClass strict t (numberedClass c d)).findings = [] ↔ d.DeclarationRules t.names := by
  have methods := declareMethods_eq_nil_iff c d.methods 0
    (h.modify c (f := initFields strict) fun _ => rfl)
  have same : (t.modify c (initFields strict)).names = t.names := names_modify t c fun _ => rfl
  rw [same] at methods
  rw [← numberedClass_rules (c := c), ← methods, ← checkTys_eq_nil_iff h, ← List.append_eq_nil_iff]
  rfl

theorem declareClass_get? (strict : Bool) {t : ClassTable} {c : ClassId} {d : ClassDecl .bare}
    {k : Class} (hk : t.get? c = some k) (methods : k.methods = d.methods.map (headOf c))
    (clean : (declareClass strict t (numberedClass c d)).findings = []) (x : ClassId) :
    (declareClass strict t (numberedClass c d)).value.get? x =
      if c = x then some (declaredClass strict c d k) else t.get? x := by
  have first : (t.modify c (initFields strict)).get? c = some (initFields strict k) := by
    rw [get?_modify, hk, Option.map_some, if_pos rfl]
  have rest : (declareMethods (t.modify c (initFields strict))
      (placedMethods c 0 d.methods)).findings = [] := (List.append_eq_nil_iff.mp clean).2
  refine (declareMethods_get? c d.methods [] first methods rest x).trans ?_
  split
  · rfl
  · rename_i other
    rw [get?_modify]
    cases t.get? x <;> simp [other]

theorem declareEach_eq_nil_iff (strict : Bool) (ds : List (ClassDecl .bare)) :
    ∀ (start : ClassId) {t : ClassTable}, t.Indexed →
      ((declareEach strict t (numberedFrom start ds)).findings = [] ↔
        ∀ d ∈ ds, d.DeclarationRules t.names) := by
  induction ds with
  | nil => exact fun _ t _ => ⟨fun _ d hd => (by cases hd), fun _ => rfl⟩
  | cons d ds ih =>
    intro start t h
    have outline := (declareClass_declares strict t (numberedClass start d)).outline
    have indexed := h.congr outline.find? outline.names
    rw [numberedFrom_cons, declareEach, Found.findings_bind, List.append_eq_nil_iff,
      declareClass_eq_nil_iff strict h, ih _ indexed, outline.names, List.forall_mem_cons]

/-- Classes that are declared silently, one number after the other. -/
theorem declareEach_get? (strict : Bool) (ds : List (ClassDecl .bare)) :
    ∀ (start : Nat) {t : ClassTable},
      (∀ (i : Nat) d, ds[i]? = some d → ∃ k, t.get? (start + i) = some k ∧
        k.methods = d.methods.map (headOf (start + i))) →
      (declareEach strict t (numberedFrom start ds)).findings = [] →
      (∀ x < start, (declareEach strict t (numberedFrom start ds)).value.get? x = t.get? x) ∧
      ∀ (i : Nat) d k, ds[i]? = some d → t.get? (start + i) = some k →
        (declareEach strict t (numberedFrom start ds)).value.get? (start + i) =
          some (declaredClass strict (start + i) d k) := by
  induction ds with
  | nil => exact fun _ _ _ _ => ⟨fun _ _ => rfl, fun i d k hd => by simp at hd⟩
  | cons d ds ih =>
    intro start t entered clean
    rw [numberedFrom_cons, declareEach, Found.findings_bind, List.append_eq_nil_iff] at clean
    obtain ⟨k, hk, methods⟩ := entered 0 d rfl
    rw [Nat.add_zero] at hk methods
    have first := declareClass_get? strict hk methods clean.1
    have later : ∀ i : Nat,
        (declareClass strict t (numberedClass start d)).value.get? (start + 1 + i) =
          t.get? (start + (i + 1)) := by
      intro i
      have other : start ≠ start + 1 + i := by omega
      rw [first, if_neg other, Nat.add_assoc, Nat.add_comm 1]
    obtain ⟨below, here⟩ := ih (start + 1)
      (fun i e he => by
        rw [later, Nat.add_assoc, Nat.add_comm 1]
        exact entered (i + 1) e he) clean.2
    rw [numberedFrom_cons, declareEach, Found.value_bind]
    constructor
    · intro x hx
      rw [below x (Nat.lt_succ_of_lt hx), first, if_neg (Nat.ne_of_gt hx)]
    · intro i e l he hl
      cases i with
      | zero =>
        obtain rfl : d = e := Option.some.inj he
        obtain rfl : k = l := Option.some.inj (hk.symm.trans hl)
        exact (below start (Nat.lt_succ_self start)).trans ((first start).trans (if_pos rfl))
      | succ i =>
        have at_later := here i e l he ((later i).trans hl)
        rw [Nat.add_assoc, Nat.add_comm 1] at at_later
        exact at_later

theorem declareMain_eq_nil_iff {t : ClassTable} (h : t.Indexed) (m : MainClass .registered) :
    (declareMain t m).findings = [] ↔ m.DeclarationRules t.names := by
  have vars := keepLocals_eq_nil_iff h "main" [m.param] false m.vars [] List.nodup_nil
  rw [declareMain, Found.findings_bind, Found.findings_pure, List.append_nil]
  refine vars.trans ?_
  simp only [List.map_nil, List.nil_append, List.mem_singleton]
  constructor
  · rintro ⟨types, free, distinct⟩
    refine ⟨types, List.nodup_cons.mpr ⟨fun taken => ?_, distinct⟩⟩
    obtain ⟨d, hd, same⟩ := List.mem_map.mp taken
    exact free d hd same
  · rintro ⟨types, distinct⟩
    obtain ⟨free, distinct⟩ := List.nodup_cons.mp distinct
    exact ⟨types, fun d hd same => free (same ▸ List.mem_map_of_mem hd), distinct⟩

/-- The main class gets its variables. -/
theorem declareMain_get?_zero {t : ClassTable} {m : MainClass .registered} {k : Class}
    (hk : t.get? 0 = some k) (clean : (declareMain t m).findings = []) :
    (declareMain t m).value.get? 0 = some
      { k with entry := k.entry.map fun e => { e with locals := m.vars.map (localOf false) } } := by
  rw [declareMain, Found.findings_bind, Found.findings_pure, List.append_nil] at clean
  rw [declareMain, Found.value_bind, Found.value_pure, get?_modify, hk,
    keepLocals_clean _ _ _ _ _ _ clean]
  rfl

theorem declareMain_get?_succ (t : ClassTable) (m : MainClass .registered) (c : Nat) :
    (declareMain t m).value.get? (c + 1) = t.get? (c + 1) := by
  rw [declareMain, Found.value_bind, Found.value_pure, get?_modify]
  have other : 0 ≠ c + 1 := (Nat.succ_ne_zero c).symm
  simp only [if_neg other, Option.map_id']

end MiniJava.Check
