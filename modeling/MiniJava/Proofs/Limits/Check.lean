import MiniJava.Proofs.Limits.Passes

/-!
# Semantic analysis under a limit

A limit other than 0 decides neither whether a program is accepted nor which pass rejects it. The
first pass that finds anything without a limit is the one that stops the analysis, and the report
takes the first of its findings; a program in which no pass finds anything is analysed in full.
-/
namespace MiniJava.Check

section Passes
variable (strict : Bool) (p : Program .bare)

/-- What a pass finds where nothing is dropped, in what the passes before it leave. -/
def passFindings (pass : Pass) : List Finding :=
  let h := hierarchy none p
  let d := declarations strict h.program h.table (.empty none)
  match pass with
  | .hierarchy => h.report.findings
  | .declarations => d.2.findings
  | .overrides => (overrides d.1 (.empty none)).findings
  | .bodies => (bodies h.program ⟨d.1, .empty none⟩).2.report.findings

/-- What the passes make of a program in which they find nothing. -/
def passed : Checked :=
  let h := hierarchy none p
  let d := declarations strict h.program h.table (.empty none)
  let b := bodies h.program ⟨d.1, .empty none⟩
  ⟨b.2.table, b.1⟩

/-- Every error comes from the pass that finds it. -/
theorem passFindings_foundIn (pass : Pass) : FoundIn pass (passFindings strict p pass) := by
  cases pass with
  | hierarchy =>
    exact (hierarchyFrom_truncates p).foundIn (enterEach_foundIn p.classes (mainOnly p.main))
  | declarations =>
    exact (declarations_truncates strict _ _).foundIn (wholeDeclarations_foundIn strict _ _)
  | overrides => exact (overrides_truncates _).foundIn (checkClasses_foundIn _ _)
  | bodies =>
    obtain ⟨whole, truncates, found⟩ := bodies_cuts (hierarchy none p).program
      (declarations strict (hierarchy none p).program (hierarchy none p).table (.empty none)).1
    exact truncates.foundIn found

end Passes

/-- What follows a pass: the next one, or the end of the analysis if the report is not clean. -/
def stage {α : Type} (pass : Pass) (x : α × Report) (next : α → Report → Verdict) : Verdict :=
  if x.2.isClean then next x.1 x.2 else ⟨x.2, .error ⟨pass⟩⟩

theorem check_eq_stages (o : CheckOptions) (p : Program .bare) :
    check o p =
      stage .hierarchy (hierarchyFrom p (.empty o.maxErrors)) fun h r =>
        stage .declarations (declarations o.strict h.2 h.1 r) fun t r =>
          stage .overrides ((), overrides t r) fun _ r =>
            stage .bodies (startingFrom t (bodies h.2) r) fun b r => ⟨r, .ok ⟨b.2, b.1⟩⟩ := rfl

section Stages
variable {α : Type} {run : Report → α × Report} {whole : Found α} {limit : Option Nat}

theorem stage_of_silent (h : Truncates run whole) (positive : limit ≠ some 0) (pass : Pass)
    (next : α → Report → Verdict) (silent : (run (.empty none)).2.findings = []) :
    stage pass (run (.empty limit)) next = next (run (.empty none)).1 (.empty limit) := by
  rw [h.eq_of_silent positive silent]
  rfl

theorem stage_of_found (h : Truncates run whole) (positive : limit ≠ some 0) (pass : Pass)
    (next : α → Report → Verdict) (found : (run (.empty none)).2.findings ≠ []) :
    stage pass (run (.empty limit)) next =
      ⟨(Report.empty limit).addAll (run (.empty none)).2.findings, .error ⟨pass⟩⟩ := by
  rw [stage, h.report_empty limit, if_neg]
  exact fun clean => found ((Report.isClean_addAll_iff positive).mp clean)

/-- A limit of 0 lets every pass go by. -/
theorem stage_of_zero (h : Truncates run whole) (pass : Pass) (next : α → Report → Verdict) :
    stage pass (run (.empty (some 0))) next =
      next (run (.empty (some 0))).1 (.empty (some 0)) := by
  rw [stage, h.report_of_zero]
  rfl

end Stages

variable {limit : Option Nat}

/-- The first pass that finds something ends the analysis. -/
theorem check_eq (strict : Bool) (p : Program .bare) (positive : limit ≠ some 0) :
    check ⟨limit, strict⟩ p =
      match Pass.all.find? fun pass => !(passFindings strict p pass).isEmpty with
      | some pass => ⟨(Report.empty limit).addAll (passFindings strict p pass), .error ⟨pass⟩⟩
      | none => ⟨.empty limit, .ok (passed strict p)⟩ := by
  rw [check_eq_stages]
  have first := hierarchyFrom_truncates p
  by_cases silent₁ : passFindings strict p .hierarchy = []
  · refine (stage_of_silent first positive _ _ silent₁).trans ?_
    have second := declarations_truncates strict (hierarchy none p).program
      (hierarchy none p).table
    by_cases silent₂ : passFindings strict p .declarations = []
    · refine (stage_of_silent second positive _ _ silent₂).trans ?_
      have third := overrides_truncates (declarations strict (hierarchy none p).program
        (hierarchy none p).table (.empty none)).1
      by_cases silent₃ : passFindings strict p .overrides = []
      · refine (stage_of_silent third positive _ _ silent₃).trans ?_
        obtain ⟨whole, fourth, _⟩ := bodies_cuts (hierarchy none p).program
          (declarations strict (hierarchy none p).program (hierarchy none p).table (.empty none)).1
        by_cases silent₄ : passFindings strict p .bodies = []
        · refine (stage_of_silent fourth positive _ _ silent₄).trans ?_
          simp only [Pass.all, List.find?, silent₁, silent₂, silent₃, silent₄, List.isEmpty_nil,
            Bool.not_true]
          rfl
        · refine (stage_of_found fourth positive _ _ silent₄).trans ?_
          simp only [Pass.all, List.find?, silent₁, silent₂, silent₃, List.isEmpty_nil,
            List.isEmpty_eq_false_iff.mpr silent₄, Bool.not_true, Bool.not_false]
          rfl
      · refine (stage_of_found third positive _ _ silent₃).trans ?_
        simp only [Pass.all, List.find?, silent₁, silent₂, List.isEmpty_nil,
          List.isEmpty_eq_false_iff.mpr silent₃, Bool.not_true, Bool.not_false]
        rfl
    · refine (stage_of_found second positive _ _ silent₂).trans ?_
      simp only [Pass.all, List.find?, silent₁, List.isEmpty_nil,
        List.isEmpty_eq_false_iff.mpr silent₂, Bool.not_true, Bool.not_false]
      rfl
  · refine (stage_of_found first positive _ _ silent₁).trans ?_
    simp only [Pass.all, List.find?, List.isEmpty_eq_false_iff.mpr silent₁, Bool.not_false]
    rfl

theorem unlimited_ne : (none : Option Nat) ≠ some 0 := nofun

/-- Which pass stops the analysis, and what is made of an accepted program, does not depend on the
limit. -/
theorem result_eq (strict : Bool) (p : Program .bare) (positive : limit ≠ some 0) :
    (check ⟨limit, strict⟩ p).result = (check ⟨none, strict⟩ p).result := by
  rw [check_eq strict p positive, check_eq strict p unlimited_ne]
  split <;> rfl

/-- An unlimited analysis that was stopped reports what the first pass finds that finds anything. -/
theorem findings_of_stopped {strict : Bool} {p : Program .bare} {s : Stopped}
    (h : (check ⟨none, strict⟩ p).result = .error s) :
    (check ⟨none, strict⟩ p).report.findings = passFindings strict p s.pass ∧
      passFindings strict p s.pass ≠ [] ∧
      ∃ before after, Pass.all = before ++ s.pass :: after ∧
        ∀ pass ∈ before, passFindings strict p pass = [] := by
  have eq := check_eq strict p unlimited_ne
  cases stops : Pass.all.find? fun pass => !(passFindings strict p pass).isEmpty with
  | none =>
    rw [eq, stops] at h
    cases h
  | some pass =>
    rw [stops] at eq
    rw [eq] at h ⊢
    cases h
    obtain ⟨found, before, after, all, silent⟩ := List.find?_eq_some_iff_append.mp stops
    refine ⟨Report.findings_empty_addAll_none _, by simpa using found, before, after, all, ?_⟩
    intro pass hpass
    simpa using silent pass hpass

/-- A limited report is the front part of the unlimited one. -/
theorem findings_limited (strict : Bool) (p : Program .bare) {k : Nat} (positive : 1 ≤ k) :
    (check ⟨some k, strict⟩ p).report.findings =
      (check ⟨none, strict⟩ p).report.findings.take k := by
  have other : some k ≠ some 0 := fun h => Nat.ne_of_gt positive (Option.some.inj h)
  rw [check_eq strict p other, check_eq strict p unlimited_ne]
  split
  · rw [Report.findings_empty_addAll_some, Report.findings_empty_addAll_none]
  · exact List.take_nil.symm

/-- What the passes make of a program with a limit of 0. -/
def unreported (strict : Bool) (p : Program .bare) : Checked :=
  let h := hierarchy (some 0) p
  let d := declarations strict h.program h.table (.empty (some 0))
  let b := bodies h.program ⟨d.1, .empty (some 0)⟩
  ⟨b.2.table, b.1⟩

/-- With a limit of 0 every program is accepted and nothing is reported. -/
theorem check_of_zero (strict : Bool) (p : Program .bare) :
    check ⟨some 0, strict⟩ p = ⟨.empty (some 0), .ok (unreported strict p)⟩ := by
  rw [check_eq_stages]
  obtain ⟨whole, fourth, _⟩ := bodies_cuts (hierarchy (some 0) p).program
    (declarations strict (hierarchy (some 0) p).program (hierarchy (some 0) p).table
      (.empty (some 0))).1
  exact (stage_of_zero (hierarchyFrom_truncates p) _ _).trans <|
    (stage_of_zero (declarations_truncates strict _ _) _ _).trans <|
    (stage_of_zero (overrides_truncates _) _ _).trans <|
    stage_of_zero fourth .bodies fun b r => ⟨r, .ok ⟨b.2, b.1⟩⟩

end MiniJava.Check
