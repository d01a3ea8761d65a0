import MiniJava.Compile
import MiniJava.Proofs.Codegen.Reads
import MiniJava.Proofs.Limits.Compile
import MiniJava.Proofs.Strict.Bodies

/-!
# Strict initialization of fields only adds errors

Both modes look at the same steps of a program in the same order, one with the fields marked that
were assigned to, the other with all of them marked. So what strict mode reports in addition is the
fields that were read too early, where they were read. A program without such a field is compiled
to the same module, since neither layouts nor code look at a mark.
-/
namespace MiniJava

open Check

/-- A finding, and the scope that it was made in if a step of a body reports it. -/
structure ScopedFinding where
  scope? : Option Scope
  finding : Finding

/-- The finding says of a field that it might not have been initialized. -/
def ScopedFinding.blamesField (f : ScopedFinding) : Bool :=
  f.scope?.any (·.blamesField f.finding)

/-- What several steps report, from a class table that the first one starts with. -/
def scopedCourse : ClassTable → List Visit → List ScopedFinding
  | _, [] => []
  | t, v :: vs =>
    (v.findings t).map (ScopedFinding.mk (some ⟨t, v.place⟩)) ++ scopedCourse (v.after t) vs

/-- All that is found in a program, in order. -/
def scopedFindings (o : CheckOptions) (p : Program .bare) : List ScopedFinding :=
  match ready? o p with
  | none => (check o p).report.findings.map (ScopedFinding.mk none)
  | some (q, st) => scopedCourse st.table q.visits

theorem map_finding_mk (s? : Option Scope) (fs : List Finding) :
    (fs.map (ScopedFinding.mk s?)).map (·.finding) = fs := (List.map_map ..).trans (List.map_id _)

theorem findings_scopedCourse (vs : List Visit) :
    ∀ t, (scopedCourse t vs).map (·.finding) = (course t vs).flatten := by
  induction vs with
  | nil => exact fun _ => rfl
  | cons v vs ih =>
    intro t
    rw [scopedCourse, List.map_append, map_finding_mk, ih, course, List.flatten_cons]

/-- With every field marked, the fields that are read too early are not reported. -/
theorem course_filled (vs : List Visit) :
    ∀ t, (course t.filled vs).flatten =
      ((scopedCourse t vs).filter (!·.blamesField)).map (·.finding) := by
  induction vs with
  | nil => exact fun _ => rfl
  | cons v vs ih =>
    intro t
    have here : (((v.findings t).map (ScopedFinding.mk (some ⟨t, v.place⟩))).filter
          (!·.blamesField)).map (·.finding) =
        (v.findings t).filter (Scope.keeps ⟨t, v.place⟩) := by
      rw [List.filter_map, map_finding_mk]
      rfl
    rw [course, List.flatten_cons, Visit.findings_filled, Visit.after_filled, ih, scopedCourse,
      List.filter_append, List.map_append, here]

/-- Nothing that is found is left out. -/
theorem findings_scopedFindings (strict : Bool) (p : Program .bare) :
    (scopedFindings ⟨none, strict⟩ p).map (·.finding) =
      (check ⟨none, strict⟩ p).report.findings := by
  rw [scopedFindings]
  cases ready : ready? ⟨none, strict⟩ p with
  | none => exact map_finding_mk none _
  | some start =>
    dsimp only
    rw [findings_scopedCourse, (check_course ready).1]

theorem findings_plain (p : Program .bare) :
    (check ⟨none, false⟩ p).report.findings =
      ((scopedFindings ⟨none, true⟩ p).filter (!·.blamesField)).map (·.finding) := by
  rw [scopedFindings]
  cases ready : ready? ⟨none, true⟩ p with
  | none =>
    -- the passes before the bodies know no scope, and report the same
    have all : ∀ f ∈ (check ⟨none, true⟩ p).report.findings.map (ScopedFinding.mk none),
        (!f.blamesField) = true := by
      intro f hf
      obtain ⟨_, _, rfl⟩ := List.mem_map.mp hf
      rfl
    rw [check_eq_of_not_ready ready]
    dsimp only
    rw [List.filter_eq_self.mpr all, map_finding_mk]
  | some start =>
    obtain ⟨q, st⟩ := start
    have plain : ready? ⟨none, false⟩ p = some (q, st.filled) := by
      rw [ready?_plain, ready]
      rfl
    rw [(check_course plain).1]
    exact course_filled q.visits st.table

/-- What strict mode accepts is accepted anyway, with the same notes, and with a mark on every
field in the end. -/
theorem check_plain_of_strict {p : Program .bare} {c : Checked}
    (h : (check ⟨none, true⟩ p).result = .ok c) :
    (check ⟨none, false⟩ p).result = .ok ⟨c.table.filled, c.program⟩ := by
  have none_found : scopedFindings ⟨none, true⟩ p = [] := by
    apply List.map_eq_nil_iff.mp
    rw [findings_scopedFindings]
    exact findings_eq_nil_of_ok h
  obtain ⟨q, st, ready, clean, rfl⟩ := check_eq_ok_iff.mp h
  have plain : ready? ⟨none, false⟩ p = some (q, st.filled) := by
    rw [ready?_plain, ready]
    rfl
  have unlimited := (ready_of_ready? unlimited_ne ready).limit
  have blind := bodies_blind q
  have value := blind.value st.table st.report st.report unlimited unlimited
  have table := blind.table st.table st.report st.report unlimited unlimited
  refine check_eq_ok_iff.mpr ⟨q, st.filled, plain, ?_, ?_⟩
  · rw [← report_conclude, ← check_of_ready? plain, Report.isClean_iff, findings_plain, none_found]
    rfl
  · rw [State.filled, table, value]

theorem readAlike_filled (t : ClassTable) : Codegen.ReadAlike t t.filled where
  field r := by
    rw [Codegen.fieldRead, ClassTable.field?_filled, Option.map_map]
    rfl
  method := t.method?_filled
  name := t.nameOf_filled
  entry := t.entry_filled 0

theorem Layout.compute_filled (s : Strategy) (t : ClassTable) :
    compute s t.filled = Prod.map ClassTable.filled id (compute s t) :=
  Class.unseen_filled.compute_map t s

def Analysis.filled (a : Analysis) : Analysis := ⟨a.table.filled, a.program, a.layout⟩

theorem Analysis.generate_filled (a : Analysis) (s : Sink) :
    a.filled.generate s = a.generate s := by
  have same := Codegen.generate_congr (readAlike_filled a.table) a.layout a.program
  rw [generate, filled, same, generate]

theorem runCheck_of_ok {o : Options} {p : Program .bare} {c : Checked}
    (h : (check o.checking p).result = .ok c) {d : Diagnostics} (fresh : d.errored = false) :
    runCheck o p d = ⟨d, .ok c⟩ := by
  rw [runCheck_of_fresh o p fresh, h, findings_eq_nil_of_ok h]
  rfl

section Compile
variable {o : Options} (unlimited : o.maxErrors = none) {p : Program .bare} {c : Checked}
  (h : (check ⟨none, true⟩ p).result = .ok c) (d : Diagnostics)
include unlimited h

/-- The same verdict, with all fields marked. Errors from before the check stop both. -/
theorem runCheck_plain :
    runCheck { o with strict := false } p d =
      ⟨(runCheck { o with strict := true } p d).diagnostics,
        (runCheck { o with strict := true } p d).result.map fun c => ⟨c.table.filled, c.program⟩⟩ := by
  have strict : Options.checking { o with strict := true } = ⟨none, true⟩ := by
    rw [Options.checking, unlimited]
  have plain : Options.checking { o with strict := false } = ⟨none, false⟩ := by
    rw [Options.checking, unlimited]
  cases errored : d.errored with
  | true => rw [runCheck_of_errored _ p errored, runCheck_of_errored _ p errored]; rfl
  | false =>
    rw [runCheck_of_ok (plain ▸ check_plain_of_strict h) errored, runCheck_of_ok (strict ▸ h) errored]
    rfl

/-- The same layout, described alike. -/
theorem analyze_plain :
    analyze { o with strict := false } p d =
      ⟨(analyze { o with strict := true } p d).diagnostics,
        (analyze { o with strict := true } p d).result.map Analysis.filled⟩ := by
  rw [analyze, analyze, runCheck_plain unlimited h]
  dsimp only
  cases (runCheck { o with strict := true } p d).result with
  | error e => rfl
  | ok c =>
    dsimp only [Except.map]
    rw [Layout.compute_filled]
    obtain ⟨t, l | l⟩ := Layout.compute o.layout c.table
    · rfl
    · have described : l.describe t.filled = l.describe t := Class.unseen_filled.describe_map t l
      dsimp only [Prod.map, id]
      rw [described]
      rfl

theorem compile_plain (s : Sink) :
    compile { o with strict := false } p s d = compile { o with strict := true } p s d := by
  rw [compile, compile, runCheck_plain unlimited h, analyze_plain unlimited h]
  dsimp only
  cases o.stopAfter with
  | semantics =>
    dsimp only
    cases (runCheck { o with strict := true, stopAfter := .semantics } p d).result <;> rfl
  | codegen =>
    dsimp only
    cases (analyze { o with strict := true, stopAfter := .codegen } p d).result with
    | error e => rfl
    | ok a => exact congrArg (Compiled.mk _) (a.generate_filled s)

end Compile

/-- Without strict mode exactly the fields that are read too early are not reported. A program that
strict mode accepts gets the same notes without it, the same layouts, and the same module, byte by
byte: only the marks on fields are different. -/
theorem strict_only_adds (p : Program .bare) :
    (check ⟨none, true⟩ p).report.findings =
        (scopedFindings ⟨none, true⟩ p).map (·.finding) ∧
      (check ⟨none, false⟩ p).report.findings =
        ((scopedFindings ⟨none, true⟩ p).filter (!·.blamesField)).map (·.finding) ∧
      ∀ c, (check ⟨none, true⟩ p).result = .ok c →
        (check ⟨none, false⟩ p).result = .ok ⟨c.table.filled, c.program⟩ ∧
        (∀ s, Layout.compute s c.table.filled =
          Prod.map ClassTable.filled id (Layout.compute s c.table)) ∧
        ∀ (o : Options) (s : Sink) (d : Diagnostics), o.maxErrors = none →
          compile { o with strict := false } p s d = compile { o with strict := true } p s d := by
  refine ⟨(findings_scopedFindings true p).symm, findings_plain p, fun c accepted => ?_⟩
  refine ⟨check_plain_of_strict accepted, fun s => Layout.compute_filled s c.table, ?_⟩
  intro o s d unlimited
  exact compile_plain unlimited accepted d s

section Sample

/-- A method that reads a field, after some statements. -/
def counting (first : List (Stmt Unit Unit)) : Program .bare where
  main := ⟨1, "Main", "args", [],
    [.print 1 (plain (.send (plain (.newObject "A")) "f" [plain (.int 1)]))]⟩
  classes := [⟨1, (), "A", none, [⟨1, .int, "v"⟩],
    [⟨1, (), .int, "f", [⟨1, .int, "x"⟩], [], first,
      plain (.binary .add (plain (.name "v")) (plain (.name "x")))⟩]⟩]

/-- The field is assigned to before it is read. -/
def counted : Program .bare := counting [.assign 1 "v" () (plain (.name "x"))]

/-- The field that is not assigned to is reported in strict mode, and only there. -/
example : (check ⟨none, true⟩ (counting [])).report.findings = [⟨1, .uninitialized "v"⟩] ∧
    (check ⟨none, false⟩ (counting [])).report.findings = [] := by
  decide +kernel

theorem strict_only_adds_counted :
    ∃ c, (check ⟨none, true⟩ counted).result = .ok c ∧
      (check ⟨none, false⟩ counted).result = .ok ⟨c.table.filled, c.program⟩ ∧
      ({} : Options).maxErrors = none ∧
      compile { strict := false } counted {} {} = compile { strict := true } counted {} {} := by
  obtain ⟨c, accepted⟩ := exists_of_isOk
    (show (check ⟨none, true⟩ counted).result.isOk = true by decide +kernel)
  obtain ⟨plain, _, same⟩ := (strict_only_adds counted).2.2 c accepted
  exact ⟨c, accepted, plain, rfl, same {} {} {} rfl⟩

end Sample

end MiniJava
