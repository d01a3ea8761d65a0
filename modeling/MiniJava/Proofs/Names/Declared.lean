import MiniJava.Proofs.Declared.Faithful
import MiniJava.Proofs.Names.Lookups

/-!
# The names of declared types

The declaration pass looks up every class that is named as a type, in the order of the program.
Another class as a type changes neither which classes there are nor whether they may be declared.
-/
namespace MiniJava

open Check ClassTable

/-- What is reported of the classes that are named, if only some classes are there. -/
def unknownTypes (names : List Name) (os : List Occurrence) : List Finding :=
  os.flatMap fun o =>
    if o.name ∈ names then []
    else [⟨o.line, .unknownType o.name (Name.closest? o.name names)⟩]

theorem unknownTypes_append (names : List Name) (os os' : List Occurrence) :
    unknownTypes names (os ++ os') = unknownTypes names os ++ unknownTypes names os' :=
  List.flatMap_append

theorem unknownTypes_quiet {names : List Name} {n : Nat} {os : List Occurrence}
    (free : n ∉ os.map (·.line)) : Quiet n (unknownTypes names os) := by
  refine quiet_iff.mpr fun f hf line => ?_
  obtain ⟨o, ho, hf⟩ := List.mem_flatMap.mp hf
  by_cases known : o.name ∈ names
  · rw [if_pos known] at hf
    cases hf
  · rw [if_neg known, List.mem_singleton] at hf
    subst hf
    exact absurd (List.mem_map.mpr ⟨o, ho, line⟩) free

/-- Apart from the classes that are named, nothing is said of names. -/
def LooksUp (names : List Name) (fs : List Finding) (os : List Occurrence) : Prop :=
  ∀ n, nameErrorsAt n fs = nameErrorsAt n (unknownTypes names os)

section LooksUp
variable {names : List Name} {fs gs : List Finding} {os os' : List Occurrence}

theorem LooksUp.nil : LooksUp names [] [] := fun _ => rfl

theorem LooksUp.append (h : LooksUp names fs os) (h' : LooksUp names gs os') :
    LooksUp names (fs ++ gs) (os ++ os') := by
  intro n
  rw [unknownTypes_append, nameErrorsAt_append, nameErrorsAt_append, h n, h' n]

theorem LooksUp.cons_other {f : Finding} (other : f.error.isAboutName = false)
    (h : LooksUp names fs os) : LooksUp names (f :: fs) os := by
  intro n
  rw [← h n, nameErrorsAt, List.filter_cons, other, Bool.and_false]
  rfl

end LooksUp

section Table
variable {t : ClassTable}

theorem checkTy_looksUp (h : t.Indexed) (line : Nat) (ty : Ty) :
    LooksUp t.names (checkTy t line ty).findings (ty.occurrences line) := by
  cases ty with
  | object x =>
    intro n
    rw [checkTy, Ty.occurrences, unknownTypes, List.flatMap_singleton]
    cases found : t.find? x with
    | none => rw [if_neg (h.find?_eq_none_iff.mp found), findings_report]
    | some c => rw [if_pos (h.find?_isSome_iff.mp (by rw [found]; rfl)), Found.findings_of]
  | _ => exact .nil

theorem checkTys_looksUp (h : t.Indexed) (ds : List VarDecl) :
    LooksUp t.names (checkTys t ds).findings (ds.flatMap (·.occurrences)) := by
  induction ds with
  | nil => exact .nil
  | cons d ds ih => exact (checkTy_looksUp h d.line d.ty).append ih

theorem keepLocals_looksUp (h : t.Indexed) (method : Name) (taken : List Name) (init : Bool)
    (ds : List VarDecl) :
    ∀ kept, LooksUp t.names (keepLocals t method taken init kept ds).findings
      (ds.flatMap (·.occurrences)) := by
  induction ds with
  | nil => exact fun kept => .nil
  | cons d ds ih =>
    intro kept
    rw [keepLocals, Found.findings_bind, List.flatMap_cons]
    refine (checkTy_looksUp h d.line d.ty).append ?_
    split
    · exact .cons_other rfl (ih kept)
    · exact ih _

theorem methodLocals_looksUp (h : t.Indexed) (m : MethodDecl .bare) (note : Option MethodRef) :
    LooksUp t.names (methodLocals t (registerMethod m note)).findings m.typeOccurrences := by
  simp only [methodLocals, Found.findings_bind, Found.findings_pure, List.append_nil]
  exact (checkTy_looksUp h m.line m.returnTy).append
    ((keepLocals_looksUp h m.name [] true m.params []).append
      (keepLocals_looksUp h m.name [] false m.vars _))

theorem declareMethods_looksUp (c : ClassId) (ms : List (MethodDecl .bare)) :
    ∀ (start : Nat) {t : ClassTable}, t.Indexed →
      LooksUp t.names (declareMethods t (placedMethods c start ms)).findings
        (ms.flatMap (·.typeOccurrences)) := by
  induction ms with
  | nil => exact fun start t _ => .nil
  | cons m ms ih =>
    intro start t h
    rw [declareMethods_cons, List.flatMap_cons]
    refine (methodLocals_looksUp h m _).append ?_
    have rest := ih (start + 1) (h.modifyMethod ⟨c, start⟩ fun method =>
      { method with
        paramCount := (methodLocals t (registerMethod m (some ⟨c, start⟩))).value.1
        locals := (methodLocals t (registerMethod m (some ⟨c, start⟩))).value.2 })
    rw [names_modifyMethod] at rest
    exact rest

theorem declareClass_looksUp (strict : Bool) (h : t.Indexed) (c : ClassId) (d : ClassDecl .bare) :
    LooksUp t.names (declareClass strict t (numberedClass c d)).findings d.typeOccurrences := by
  have methods := declareMethods_looksUp c d.methods 0
    (h.modify c (f := initFields strict) fun _ => rfl)
  have same : (t.modify c (initFields strict)).names = t.names := names_modify t c fun _ => rfl
  rw [same] at methods
  exact (checkTys_looksUp h d.fields).append methods

theorem declareEach_looksUp (strict : Bool) (ds : List (ClassDecl .bare)) :
    ∀ (start : ClassId) {t : ClassTable}, t.Indexed →
      LooksUp t.names (declareEach strict t (numberedFrom start ds)).findings
        (ds.flatMap (·.typeOccurrences)) := by
  induction ds with
  | nil => exact fun start t _ => .nil
  | cons d ds ih =>
    intro start t h
    have same := (declareClass_declares strict t (numberedClass start d)).outline
    have rest := ih (start + 1) (h.congr same.find? same.names)
    rw [same.names] at rest
    rw [numberedFrom_cons, declareEach, Found.findings_bind, List.flatMap_cons]
    exact (declareClass_looksUp strict h start d).append rest

end Table

section Pass
variable {strict : Bool} {p : Program .bare}

theorem names_of_clean (clean : (hierarchy none p).report.findings = []) :
    (hierarchy none p).table.names = p.classNames := by
  obtain ⟨t, enters, table, _⟩ := hierarchy_of_clean clean
  rw [table, names_withInherited, enters.names]
  rfl

/-- Of names, the declaration pass reports the types that are no classes of the program. -/
theorem declarations_looksUp (clean : (hierarchy none p).report.findings = []) :
    LooksUp p.classNames (passFindings strict p .declarations) p.typeOccurrences := by
  have report : (hierarchy none p).report = .empty none :=
    congrArg Prod.snd ((hierarchyFrom_truncates p).eq_of_silent (by simp) clean)
  have findings := (declarations_of_clean strict clean).2
  rw [report] at findings
  rw [passFindings, findings, ← names_of_clean clean]
  have indexed := (hierarchy_wellFormed none p).indexed
  have same := declareMain_outline (hierarchy none p).table (hierarchy none p).program.main
  refine LooksUp.append ?_ ?_
  · rw [declareMain, Found.findings_bind, Found.findings_pure, List.append_nil]
    exact keepLocals_looksUp indexed _ _ _ p.main.vars []
  · rw [← same.names]
    exact declareEach_looksUp strict p.classes 1 (indexed.congr same.find? same.names)

end Pass

section Rename
variable {n : Nat} {z : Name} {p : Program .bare}

theorem classNames_rename : (p.rename n z).classNames = p.classNames := by
  simp only [Program.classNames, Program.rename, List.map_map]
  rfl

theorem fieldNames_rename (vs : List VarDecl) :
    (vs.map (VarDecl.rename n z)).map (·.name) = vs.map (·.name) := by
  rw [List.map_map]
  rfl

theorem membersDistinct_rename {d : ClassDecl .bare} (h : d.MembersDistinct) :
    (d.rename n z).MembersDistinct where
  fields := by
    simp only [ClassDecl.rename, fieldNames_rename]
    exact h.fields
  methods := by
    simp only [ClassDecl.rename, List.map_map]
    exact h.methods
  not_class := by
    intro m hm
    obtain ⟨m', hm', rfl⟩ := List.mem_map.mp hm
    exact h.not_class m' hm'
  not_field := by
    intro m hm
    obtain ⟨m', hm', rfl⟩ := List.mem_map.mp hm
    simp only [ClassDecl.rename, fieldNames_rename]
    exact h.not_field m' hm'

/-- The hierarchy looks at no declared type and at no body. -/
theorem hierarchyRules_rename (h : p.HierarchyRules) : (p.rename n z).HierarchyRules where
  names := by
    rw [classNames_rename]
    exact h.names
  superclass := by
    intro before d after split s hs
    obtain ⟨before', rest, classes, rfl, tail⟩ := List.map_eq_append_iff.mp split
    obtain ⟨d', after', rfl, rfl, rfl⟩ := List.map_eq_cons_iff.mp tail
    rw [List.map_map]
    exact h.superclass before' d' after' classes s hs
  members := by
    intro d hd
    obtain ⟨d', hd', rfl⟩ := List.mem_map.mp hd
    exact membersDistinct_rename (h.members d' hd')

theorem hierarchy_rename_clean (clean : (hierarchy none p).report.findings = []) :
    (hierarchy none (p.rename n z)).report.findings = [] :=
  (hierarchy_eq_nil_iff _).mpr (hierarchyRules_rename ((hierarchy_eq_nil_iff p).mp clean))

end Rename

end MiniJava
