import MiniJava.Proofs.Accepted
import MiniJava.Proofs.Declared.Declarations

/-!
# The class table is that of the declarations

The first two passes report nothing exactly for the programs that keep the rules for declarations.
Then the class table holds what the program declares, in its order, and nothing else.
-/
namespace MiniJava.Check

open ClassTable

section Declared
variable {p : Program .bare}

/-- What the two passes work on, where the first reports nothing. -/
theorem declarations_of_clean (strict : Bool) (clean : (hierarchy none p).report.findings = []) :
    let t := (hierarchy none p).table
    let main := declareMain t (hierarchy none p).program.main
    let rest := declareEach strict main.value (numberedFrom 1 p.classes)
    let d := declarations strict (hierarchy none p).program t (hierarchy none p).report
    d.1 = rest.value ∧ d.2.findings = main.findings ++ rest.findings := by
  obtain ⟨_, _, _, classes⟩ := hierarchy_of_clean clean
  have report : (hierarchy none p).report = .empty none :=
    congrArg Prod.snd ((hierarchyFrom_truncates p).eq_of_silent (by simp) clean)
  have whole := declarations_truncates strict (hierarchy none p).program (hierarchy none p).table
  have value := congrArg Prod.fst whole.eq_of_unlimited
  have findings := whole.findings_of_unlimited
  rw [wholeDeclarations, classes] at value findings
  dsimp only
  rw [report]
  exact ⟨value, findings⟩

theorem registeredMain_rules {names : List Name} :
    (hierarchy none p).program.main.DeclarationRules names ↔ p.main.DeclarationRules names :=
  ⟨fun h => ⟨h.types, h.distinct⟩, fun h => ⟨h.types, h.distinct⟩⟩

variable {strict : Bool}

/-- Nothing is reported of the declarations exactly if the program keeps their rules. -/
theorem declarations_eq_nil_iff (clean : (hierarchy none p).report.findings = []) :
    (declarations strict (hierarchy none p).program (hierarchy none p).table
      (hierarchy none p).report).2.findings = [] ↔ p.DeclarationRules := by
  obtain ⟨t, enters, table, _⟩ := hierarchy_of_clean clean
  have names : (hierarchy none p).table.names = p.classNames := by
    rw [table, names_withInherited, enters.names]
    rfl
  have indexed := (hierarchy_wellFormed none p).indexed
  have same := declareMain_outline (hierarchy none p).table (hierarchy none p).program.main
  rw [(declarations_of_clean strict clean).2, List.append_eq_nil_iff, declareMain_eq_nil_iff indexed,
    declareEach_eq_nil_iff strict p.classes 1 (indexed.congr same.find? same.names), same.names,
    names, registeredMain_rules]
  exact ⟨fun h => ⟨h.1, h.2⟩, fun h => ⟨h.main, h.classes⟩⟩

/-- The members of a class that was entered and then declared. -/
theorem mirrored_declaredClass {before : List (ClassDecl .bare)} {c : ClassId} {d : ClassDecl .bare}
    {parent : Option ClassId} (hp : ParentOf before d parent) (inherited : List Inherited) :
    Mirrored strict before c d
      (declaredClass strict c d { enteredClass c parent d with inherited }) where
  name := rfl
  line := rfl
  parent := hp
  fields := by
    simp only [declaredClass, initFields, enteredClass, List.map_map]
    rfl
  methods := rfl
  entry := rfl

theorem mirrors_of_clean (clean : (hierarchy none p).report.findings = [])
    (clean' : (declarations strict (hierarchy none p).program (hierarchy none p).table
      (hierarchy none p).report).2.findings = []) :
    Mirrors strict p (declarations strict (hierarchy none p).program (hierarchy none p).table
      (hierarchy none p).report).1 := by
  obtain ⟨t, enters, table, _⟩ := hierarchy_of_clean clean
  obtain ⟨value, findings⟩ := declarations_of_clean strict clean
  have outline := declarations_outline strict (hierarchy none p).program (hierarchy none p).table
    (hierarchy none p).report
  obtain ⟨cleanMain, cleanClasses⟩ := List.append_eq_nil_iff.mp (findings ▸ clean')
  have entered : ∀ (i : Nat) d, p.classes[i]? = some d → ∃ parent inherited,
      ParentOf (p.classes.take i) d parent ∧
      (declareMain (hierarchy none p).table (hierarchy none p).program.main).value.get? (1 + i) =
        some { enteredClass (1 + i) parent d with inherited } := by
    intro i d hd
    obtain ⟨parent, hp, get⟩ := enters.classes hd
    refine ⟨parent, inheritedOf t (i + 1), hp, ?_⟩
    rw [Nat.add_comm, declareMain_get?_succ, table, get?_withInherited, get]
    rfl
  obtain ⟨below, here⟩ := declareEach_get? strict p.classes 1 (fun i d hd => by
    obtain ⟨_, _, _, get⟩ := entered i d hd
    exact ⟨_, get, rfl⟩) cleanClasses
  rw [value] at outline ⊢
  refine ⟨?_, ?_, ?_⟩
  · refine outline.size.trans ?_
    rw [table, ClassTable.size, withInherited, Array.size_mapIdx]
    exact enters.size
  · have first : (hierarchy none p).table.get? 0 = some
        { name := p.main.name, line := p.main.line, entry := some { param := p.main.param } } := by
      rw [table, get?_withInherited, enters.main]
      rfl
    rw [below 0 Nat.one_pos, declareMain_get?_zero first cleanMain]
    rfl
  · intro before d after split
    have hd : p.classes[before.length]? = some d := by rw [split]; simp
    obtain ⟨parent, inherited, hp, get⟩ := entered before.length d hd
    rw [split, List.take_left] at hp
    have final := here before.length d _ hd get
    rw [Nat.add_comm] at final
    exact ⟨_, final, mirrored_declaredClass hp inherited⟩

end Declared

/-- The hierarchy and the declarations of a program are accepted exactly if they keep the rules, and
then the class table is the one that the program declares. -/
theorem classes_faithful (strict : Bool) (p : Program .bare) :
    let h := hierarchy none p
    let d := declarations strict h.program h.table h.report
    (h.report.findings = [] ↔ p.HierarchyRules) ∧
      (h.report.findings = [] →
        (d.2.findings = [] ↔ p.DeclarationRules) ∧ (d.2.findings = [] → Mirrors strict p d.1)) :=
  ⟨hierarchy_eq_nil_iff p, fun clean =>
    ⟨declarations_eq_nil_iff clean, mirrors_of_clean clean⟩⟩

theorem classes_faithful_branches :
    (hierarchy none branches).report.findings = [] ∧ branches.HierarchyRules ∧
      branches.DeclarationRules ∧
      Mirrors true branches (declarations true (hierarchy none branches).program
        (hierarchy none branches).table (hierarchy none branches).report).1 := by
  obtain ⟨rules, declared⟩ := classes_faithful true branches
  have clean : (hierarchy none branches).report.findings = [] := by decide +kernel
  have clean' : (declarations true (hierarchy none branches).program
      (hierarchy none branches).table (hierarchy none branches).report).2.findings = [] := by
    decide +kernel
  obtain ⟨iff, mirrors⟩ := declared clean
  exact ⟨clean, rules.mp clean, iff.mp clean', mirrors clean'⟩

end MiniJava.Check
