import MiniJava.Proofs.Grouping.Check
import MiniJava.Proofs.Grouping.Code
import MiniJava.Proofs.Limits.Compile
import MiniJava.Proofs.Lines.Compile

/-!
# Brackets and blocks do not count

Programs that differ in how expressions are bracketed and statements are grouped are one program
without brackets, blocks and lines. Each of them comes to the verdict of that program, and is compiled
like it.
-/
namespace MiniJava

/-- What a program is told, and after which pass it stopped, if it did. -/
def Verdict.outcome (v : Verdict) : List SemanticError × Except Stopped Unit :=
  (v.report.findings.map (·.error), v.result.map fun _ => ())

theorem outcome_unlined (o : CheckOptions) (p : Program .bare) :
    (check o p.unlined).outcome = (check o p).outcome := by
  rw [check_unlined, Verdict.outcome, Verdict.outcome, Report.unlined, List.map_map]
  refine Prod.ext rfl ?_
  cases (check o p).result <;> rfl

section Spread
variable {o : Options} (unlimited : o.maxErrors = none) {p : Program .bare} (aligned : p.Aligned)
include unlimited aligned

theorem outcome_spread : (check o.checking p.spread).outcome = (check o.checking p).outcome := by
  rw [check_spread unlimited aligned, Verdict.outcome, Verdict.outcome]
  refine Prod.ext rfl ?_
  cases (check o.checking p).result <;> rfl

theorem runCheck_spread (d : Diagnostics) :
    runCheck o p.spread d = ⟨(runCheck o p d).diagnostics,
      (runCheck o p d).result.map fun c => ⟨c.table, c.program.spread⟩⟩ := by
  have report : (Check.hierarchy o.maxErrors p.spread).report =
      (Check.hierarchy o.maxErrors p).report := by rw [Program.spread, hierarchy_onBodies]
  rw [runCheck, runCheck, check_spread unlimited aligned, report]
  split
  · rfl
  · dsimp only
    cases (check o.checking p).result <;> rfl

theorem analyze_spread (d : Diagnostics) :
    analyze o p.spread d = ⟨(analyze o p d).diagnostics,
      (analyze o p d).result.map fun a => ⟨a.table, a.program.spread, a.layout⟩⟩ := by
  rw [analyze, analyze, runCheck_spread unlimited aligned]
  dsimp only
  cases (runCheck o p d).result with
  | error e => rfl
  | ok c =>
    dsimp only [Except.map]
    generalize Layout.compute o.layout c.table = x
    obtain ⟨t, layout⟩ := x
    cases layout <;> rfl

end Spread

/-- What is compiled was recorded by analysis. -/
theorem recorded_of_analyze {o : Options} (positive : o.maxErrors ≠ some 0) {p : Program .bare}
    {d : Diagnostics} {a : Analysis} (h : (analyze o p d).result = .ok a) :
    ∃ t, Typing.ProgramRecorded t a.program := by
  rw [analyze] at h
  cases checked : (runCheck o p d).result with
  | error e =>
    rw [checked] at h
    cases h
  | ok c =>
    obtain ⟨t, known⟩ := Check.exists_accepted positive (accepted_of_runCheck checked).2
    simp only [checked] at h
    split at h
    · cases h
    · obtain rfl := Except.ok.inj h
      exact ⟨t, known.recorded⟩

/-- A program is compiled like the program without brackets and blocks. -/
theorem compile_spread {o : Options} (unlimited : o.maxErrors = none) {p : Program .bare}
    (aligned : p.Aligned) (s : Sink) (d : Diagnostics) :
    compile o p.spread s d = compile o p s d := by
  have positive : o.maxErrors ≠ some 0 := by rw [unlimited]; nofun
  rw [compile, compile]
  cases o.stopAfter with
  | semantics =>
    dsimp only
    rw [runCheck_spread unlimited aligned]
    cases (runCheck o p d).result <;> rfl
  | codegen =>
    dsimp only
    rw [analyze_spread unlimited aligned]
    cases analyzed : (analyze o p d).result with
    | error e => rfl
    | ok a =>
      obtain ⟨t, recorded⟩ := recorded_of_analyze positive analyzed
      dsimp only [Except.map, Analysis.generate]
      rw [Codegen.generate_spread a.layout recorded]

theorem compiledAlike_spread {o : Options} (unlimited : o.maxErrors = none) {p : Program .bare}
    (aligned : p.Aligned) (s : Sink) (d : Diagnostics) : CompiledAlike o s d p p.spread where
  bytes := by rw [compile_spread unlimited aligned]
  result := by rw [compile_spread unlimited aligned]
  texts := by rw [compile_spread unlimited aligned]
  layout := by
    rw [analyze_spread unlimited aligned]
    cases (analyze o p d).result <;> rfl

/-- Brackets and blocks never influence what is found, what is written and how classes are laid
out. -/
theorem compile_ignores_grouping {p q : Program .bare} (h : p.Regrouped q) {o : Options}
    (unlimited : o.maxErrors = none) (s : Sink) (d : Diagnostics) :
    (check o.checking q).outcome = (check o.checking p).outcome ∧ CompiledAlike o s d p q := by
  have spread : ∀ r : Program .bare,
      (check o.checking r.unlined.spread).outcome = (check o.checking r).outcome ∧
        CompiledAlike o s d r r.unlined.spread := fun r =>
    ⟨(outcome_spread unlimited r.aligned_unlined).trans (outcome_unlined o.checking r),
      (compiledAlike_unlined o r s d).trans (compiledAlike_spread unlimited r.aligned_unlined s d)⟩
  obtain ⟨outcome, alike⟩ := spread p
  obtain ⟨outcome', alike'⟩ := spread q
  rw [← h.spread_eq] at outcome' alike'
  exact ⟨outcome'.symm.trans outcome, alike.trans alike'.symm⟩

section Sample

open Check (plain)

/-- A class that keeps a number in an array, with the body and the return expression of its method. -/
def holder (main body : List (Stmt Unit Unit)) (result : Expr Unit) : Program .bare where
  main := ⟨1, "Main", "args", [⟨1, .object "A", "a"⟩], main⟩
  classes := [⟨1, (), "A", none, [⟨1, .intArray, "u"⟩],
    [⟨1, (), .int, "f", [⟨1, .int, "x"⟩], [], body, result⟩]⟩]

def ungrouped : Program .bare :=
  holder
    [.assign 1 "a" () (plain (.newObject "A")),
      .print 1 (plain (.send (plain (.name "a")) "f" [plain (.int 1)]))]
    [.assign 1 "u" () (plain (.newIntArray (plain (.int 2)))),
      .block 1 [.arrayAssign 1 "u" () (plain (.int 0)) (plain (.name "x"))]]
    (plain (.lookup (plain (.name "u")) (plain (.int 0))))

/-- A receiver and an array stand in brackets, a block has been put around two statements, and
another one has been taken away. -/
def grouped : Program .bare :=
  holder
    [.block 1 [.assign 1 "a" () (plain (.newObject "A")),
      .print 1 (plain (.send (plain (.bracket (plain (.name "a")))) "f" [plain (.int 1)]))]]
    [.assign 1 "u" () (plain (.newIntArray (plain (.int 2)))),
      .arrayAssign 1 "u" () (plain (.int 0)) (plain (.name "x"))]
    (plain (.lookup (plain (.bracket (plain (.name "u")))) (plain (.int 0))))

theorem regrouped_grouped : ungrouped.Regrouped grouped where
  same := rfl
  main := by
    have receiver : (plain (.name "a")).Rebracketed (plain (.bracket (plain (.name "a")))) :=
      .put (.node .same)
    have printed : Stmt.Regrouped
        (.print 1 (plain (.send (plain (.name "a")) "f" [plain (.int 1)])))
        (.print 1 (plain (.send (plain (.bracket (plain (.name "a")))) "f" [plain (.int 1)]))) :=
      .print (.node (.send receiver (.cons (.node .same) .nil)))
    exact .wrap (.cons (.assign (.node .same)) (.cons printed .nil))
  classes := by
    have array : (plain (.name "u")).Rebracketed (plain (.bracket (plain (.name "u")))) :=
      .put (.node .same)
    have body : BodyRegrouped
        [.assign 1 "u" () (plain (.newIntArray (plain (.int 2)))),
          .block 1 [.arrayAssign 1 "u" () (plain (.int 0)) (plain (.name "x"))]]
        [.assign 1 "u" () (plain (.newIntArray (plain (.int 2)))),
          .arrayAssign 1 "u" () (plain (.int 0)) (plain (.name "x"))] :=
      .cons (.assign (.node .same))
        (.splice (.cons (.arrayAssign (.node .same) (.node .same)) .nil))
    exact .cons ⟨rfl, .cons ⟨rfl, body, .node (.lookup array (.node .same))⟩ .nil⟩ .nil

theorem compile_ignores_grouping_grouped :
    ungrouped.Regrouped grouped ∧ (check {} ungrouped).result.isOk = true ∧
      (check (Options.checking {}) grouped).outcome = (check (Options.checking {}) ungrouped).outcome ∧
      CompiledAlike {} {} {} ungrouped grouped := by
  have accepted : (check {} ungrouped).result.isOk = true := by decide +kernel
  exact ⟨regrouped_grouped, accepted, compile_ignores_grouping (o := {}) regrouped_grouped rfl {} {}⟩

end Sample

end MiniJava
