import MiniJava.Compile
import MiniJava.Proofs.Limits.Check

/-!
# Compilation under a limit

A program that is rejected without a limit is rejected under every limit that lets something
through: with the first errors of the same pass, and before anything is written. A limit of 0 is no
such limit, and the analysis lets every program go by.
-/
namespace MiniJava

open Check

theorem mapError_error {ε δ α : Type} (f : ε → δ) (e : ε) :
    (Except.error e : Except ε α).mapError f = .error (f e) := rfl

theorem runCheck_of_fresh (o : Options) (p : Program .bare) {d : Diagnostics}
    (fresh : d.errored = false) :
    runCheck o p d = ⟨d.reportAll (check o.checking p).report.findings,
      (check o.checking p).result.mapError fun s =>
        .aborted s.pass (d.reportAll (check o.checking p).report.findings).count⟩ := by
  rw [runCheck, fresh]
  rfl

theorem runCheck_of_errored (o : Options) (p : Program .bare) {d : Diagnostics}
    (errored : d.errored = true) :
    runCheck o p d = ⟨d.reportAll (Check.hierarchy o.maxErrors p).report.findings,
      .error (.aborted .hierarchy
        (d.reportAll (Check.hierarchy o.maxErrors p).report.findings).count)⟩ := by
  rw [runCheck, errored]
  rfl

/-- What passes the check is accepted, and there was no error before. -/
theorem accepted_of_runCheck {o : Options} {p : Program .bare} {d : Diagnostics} {c : Checked}
    (h : (runCheck o p d).result = .ok c) :
    d.errored = false ∧ (check o.checking p).result = .ok c := by
  cases errored : d.errored with
  | true =>
    rw [runCheck_of_errored o p errored] at h
    cases h
  | false =>
    rw [runCheck_of_fresh o p errored] at h
    cases accepted : (check o.checking p).result with
    | error e =>
      rw [accepted] at h
      cases h
    | ok c' =>
      rw [accepted] at h
      exact ⟨rfl, congrArg Except.ok (Except.ok.inj h)⟩

section Rejected
variable {o : Options} {p : Program .bare} {s : Stopped}

/-- Where the analysis stops, nothing is written, and the error tells the pass and the number of
messages. -/
theorem compile_of_stopped (h : (check o.checking p).result = .error s) (sink : Sink)
    (mode : Terminal.Mode) :
    (compile o p sink { mode }).written =
      nothing (.error (.aborted s.pass (check o.checking p).report.findings.length)) := by
  have checked : (runCheck o p { mode }).result =
      .error (.aborted s.pass (check o.checking p).report.findings.length) := by
    rw [runCheck_of_fresh o p rfl, h, mapError_error, Diagnostics.count_reportAll]
    simp [Diagnostics.count]
  have analyzed : (analyze o p { mode }).result =
      .error (.aborted s.pass (check o.checking p).report.findings.length) := by
    simp only [analyze, checked]
  cases hs : o.stopAfter with
  | semantics =>
    simp only [compile, hs, checked]
    rfl
  | codegen => simp only [compile, hs, analyzed]

theorem nothing_bytes (result : Except CompileError Unit) : (nothing result).bytes = .empty := rfl

/-- The messages of a compilation that is stopped are the findings of the analysis. -/
theorem messages_of_stopped (h : (check o.checking p).result = .error s) (sink : Sink)
    (mode : Terminal.Mode) :
    (compile o p sink { mode }).diagnostics.messages =
      (check o.checking p).report.findings.map fun f => ⟨f.line, f.error.message⟩ := by
  have reported := Diagnostics.messages_reportAll { mode } (check o.checking p).report.findings
  cases hs : o.stopAfter with
  | semantics =>
    simp only [compile, hs, runCheck_of_fresh o p (d := { mode }) rfl]
    exact reported
  | codegen =>
    simp only [compile, hs, analyze, runCheck_of_fresh o p (d := { mode }) rfl, h, mapError_error]
    exact reported

end Rejected

/-- A limit only cuts off the messages: it changes neither the verdict nor the pass that it names,
and what is reported is the front part of what this pass finds without a limit, while the passes
before it find nothing. -/
theorem check_limited (strict : Bool) (p : Program .bare) {k : Nat} (positive : 1 ≤ k) :
    (check ⟨some k, strict⟩ p).result = (check ⟨none, strict⟩ p).result ∧
      (check ⟨some k, strict⟩ p).report.findings =
        (check ⟨none, strict⟩ p).report.findings.take k ∧
      ∀ s, (check ⟨some k, strict⟩ p).result = .error s →
        (check ⟨none, strict⟩ p).report.findings = passFindings strict p s.pass ∧
        passFindings strict p s.pass ≠ [] ∧ FoundIn s.pass (passFindings strict p s.pass) ∧
        (∃ before after, Pass.all = before ++ s.pass :: after ∧
          ∀ pass ∈ before, passFindings strict p pass = []) ∧
        ∀ (o : Options) (sink : Sink) (mode : Terminal.Mode), o.checking = ⟨some k, strict⟩ →
          (compile o p sink { mode }).written.result =
            .error (.aborted s.pass (compile o p sink { mode }).diagnostics.count) ∧
          (compile o p sink { mode }).diagnostics.messages =
            ((passFindings strict p s.pass).take k).map fun f => ⟨f.line, f.error.message⟩ := by
  have other : some k ≠ some 0 := fun h => Nat.ne_of_gt positive (Option.some.inj h)
  have result := result_eq strict p other
  have findings := findings_limited strict p positive
  refine ⟨result, findings, fun s stopped => ?_⟩
  obtain ⟨whole, found, before⟩ := findings_of_stopped (result ▸ stopped)
  refine ⟨whole, found, passFindings_foundIn strict p s.pass, before, ?_⟩
  intro o sink mode same
  have stopped' : (check o.checking p).result = .error s := same ▸ stopped
  have messages := messages_of_stopped stopped' sink mode
  constructor
  · rw [compile_of_stopped stopped', Diagnostics.count, messages, List.length_map]
    rfl
  · rw [messages, same, findings, whole]

/-- `main` declares the variable `a` three times. -/
def careless : Program .bare where
  main := ⟨1, "Main", "args", [⟨2, .int, "a"⟩, ⟨3, .int, "a"⟩, ⟨4, .boolean, "a"⟩], []⟩
  classes := []

theorem check_limited_careless :
    1 ≤ 1 ∧
      (check ⟨none, false⟩ careless).report.findings =
        [⟨3, .nameAlreadyUsed "a" "main"⟩, ⟨4, .nameAlreadyUsed "a" "main"⟩] ∧
      (check ⟨some 1, false⟩ careless).result = .error ⟨.declarations⟩ ∧
      (check ⟨some 1, false⟩ careless).report.findings = [⟨3, .nameAlreadyUsed "a" "main"⟩] ∧
      (compile { maxErrors := some 1 } careless {} {}).written.result =
        .error (.aborted .declarations 1) ∧
      (compile { maxErrors := some 1 } careless {} {}).diagnostics.messages =
        [⟨3, "the name a is already being used in method main()"⟩] := by
  have positive : 1 ≤ 1 := Nat.le_refl 1
  obtain ⟨result, findings, stopping⟩ := check_limited false careless positive
  have whole : (check ⟨none, false⟩ careless).report.findings =
      [⟨3, .nameAlreadyUsed "a" "main"⟩, ⟨4, .nameAlreadyUsed "a" "main"⟩] := by decide +kernel
  have stopped : (check ⟨some 1, false⟩ careless).result = .error ⟨.declarations⟩ := by
    rw [result]
    rfl
  obtain ⟨unlimited, _, _, _, compiled⟩ := stopping _ stopped
  obtain ⟨aborted, messages⟩ := compiled { maxErrors := some 1 } {} .plain rfl
  rw [← unlimited, whole] at messages
  refine ⟨positive, whole, stopped, ?_, ?_, messages⟩
  · rw [findings, whole]
    rfl
  · rw [aborted, Diagnostics.count, messages]
    rfl

theorem careless_invalid (strict : Bool) : (check ⟨none, strict⟩ careless).result.isOk = false := by
  cases strict <;> rfl

/-- A limit of 0 turns the analysis off. -/
theorem careless_compiles (strict : Bool) (layout : Layout.Strategy) (dump : Bool)
    (phase : Phase) :
    (compile ⟨some 0, strict, layout, dump, phase⟩ careless {} {}).written.result = .ok () := by
  cases strict <;> cases layout <;> cases dump <;> cases phase <;> rfl

/-- With any limit but 0, and only then, every invalid program is rejected before a byte is
written. -/
theorem rejects_invalid_iff (o : Options) :
    (∀ (p : Program .bare) (sink : Sink) (mode : Terminal.Mode),
      (check ⟨none, o.strict⟩ p).result.isOk = false →
        (∃ e, (compile o p sink { mode }).written.result = .error e) ∧
          (compile o p sink { mode }).written.bytes = .empty) ↔
      o.maxErrors ≠ some 0 := by
  constructor
  · intro rejects zero
    obtain ⟨maxErrors, strict, layout, dump, phase⟩ := o
    obtain rfl : maxErrors = some 0 := zero
    obtain ⟨⟨e, rejected⟩, _⟩ := rejects careless {} .plain (careless_invalid strict)
    rw [careless_compiles strict layout dump phase] at rejected
    cases rejected
  · intro positive p sink mode invalid
    rw [← result_eq o.strict p positive] at invalid
    cases stopped : (check ⟨o.maxErrors, o.strict⟩ p).result with
    | ok c =>
      rw [stopped] at invalid
      cases invalid
    | error s =>
      rw [compile_of_stopped stopped]
      exact ⟨⟨_, rfl⟩, nothing_bytes _⟩

theorem IR.Module.text_ne_empty (m : IR.Module) : m.text ≠ "" := by
  intro h
  simp only [IR.Module.text, IR.prelude, String.append_eq_empty_iff] at h
  exact absurd h.1.1.2 (by decide)

/-- Something is written for every program that is generated. -/
theorem generate_bytes_ne_empty (a : Analysis) : (a.generate {}).bytes ≠ .empty := by
  intro h
  have size := congrArg ByteArray.size h
  simp only [Analysis.generate, Sink.write, Written.bytes, Sink.taken,
    ByteArray.size_extract] at size
  refine (Codegen.generate a.table a.layout a.program).1.text_ne_empty ?_
  rw [← String.utf8ByteSize_eq_zero_iff]
  change min (String.utf8ByteSize _) (String.utf8ByteSize _) - 0 = 0 at size
  omega

/-- With a limit of 0 the module of an invalid program is written. -/
theorem invalid_written_of_zero :
    (check ⟨none, false⟩ careless).result.isOk = false ∧
      (compile { maxErrors := some 0 } careless {} {}).written.result = .ok () ∧
      (compile { maxErrors := some 0 } careless {} {}).written.bytes ≠ .empty := by
  have written : ∃ a : Analysis,
      (compile { maxErrors := some 0 } careless {} {}).written = a.generate {} := ⟨_, rfl⟩
  obtain ⟨a, generated⟩ := written
  refine ⟨careless_invalid false, careless_compiles false .sharedRootCounter false .codegen, ?_⟩
  rw [generated]
  exact generate_bytes_ne_empty a

end MiniJava
