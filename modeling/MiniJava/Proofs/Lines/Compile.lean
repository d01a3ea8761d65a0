import MiniJava.Compile
import MiniJava.Proofs.Accepted
import MiniJava.Proofs.Lines.Body
import MiniJava.Proofs.Lines.Code
import MiniJava.Proofs.Lines.Declarations
import MiniJava.Proofs.Lines.Hierarchy

/-!
# Compilation without lines

Two programs that are equal up to lines are compiled alike, since each of them is compiled like the
program without its lines. Only the lines of the messages and of an error of code generation tell
them apart.
-/
namespace MiniJava

def Checked.unlined (c : Checked) : Checked := ⟨c.table.unlined, c.program.unlined⟩

/-- The analysis comes to the same verdict without lines. -/
theorem check_unlined (o : CheckOptions) (p : Program .bare) :
    check o p.unlined =
      ⟨(check o p).report.unlined, (check o p).result.map Checked.unlined⟩ := by
  rw [check, check, Check.hierarchy_unlined]
  generalize Check.hierarchy o.maxErrors p = h
  simp only [Report.isClean_unlined, Check.declarations_unlined, Prod.map,
    Check.overrides_unlined]
  generalize Check.declarations o.strict h.program h.table h.report = declared
  obtain ⟨t, r⟩ := declared
  have run : Check.bodies h.program.unlined ⟨t.unlined, (Check.overrides t r).unlined⟩ =
      (_, _) := (Check.bodies_follows h.program).run ⟨t, Check.overrides t r⟩
  simp only [run, Check.State.unlined, Report.isClean_unlined]
  generalize Check.bodies h.program ⟨t, Check.overrides t r⟩ = checked
  obtain ⟨program, st⟩ := checked
  dsimp only
  cases h.report.isClean with
  | false => rfl
  | true =>
    cases r.isClean with
    | false => rfl
    | true =>
      cases (Check.overrides t r).isClean with
      | false => rfl
      | true => cases st.report.isClean <;> rfl

def CompileError.unlined : CompileError → CompileError
  | .aborted pass errors => .aborted pass errors
  | .lacking e => .lacking e.unlined
  | .sinkFull => .sinkFull

def Diagnostics.texts (d : Diagnostics) : List String := d.messages.map (·.text)

def Analysis.unlined (a : Analysis) : Analysis := ⟨a.table.unlined, a.program.unlined, a.layout⟩

/-- The layout of every class, and how it is described. -/
def Analysis.described (a : Analysis) : Layout × String := (a.layout, a.layout.describe a.table)

/-- What two programs have in common under the same options: all that is written and reported,
except for lines. -/
structure CompiledAlike (o : Options) (s : Sink) (d : Diagnostics) (p q : Program .bare) : Prop where
  bytes : (compile o q s d).written.bytes = (compile o p s d).written.bytes
  /-- Both succeed, or both fail with the same error up to its line. -/
  result : (compile o q s d).written.result.mapError CompileError.unlined =
    (compile o p s d).written.result.mapError CompileError.unlined
  texts : (compile o q s d).diagnostics.texts = (compile o p s d).diagnostics.texts
  layout : (analyze o q d).result.toOption.map Analysis.described =
    (analyze o p d).result.toOption.map Analysis.described

namespace CompiledAlike
variable {o : Options} {s : Sink} {d : Diagnostics} {p q r : Program .bare}

theorem symm (h : CompiledAlike o s d p q) : CompiledAlike o s d q p :=
  ⟨h.bytes.symm, h.result.symm, h.texts.symm, h.layout.symm⟩

theorem trans (h : CompiledAlike o s d p q) (h' : CompiledAlike o s d q r) :
    CompiledAlike o s d p r :=
  ⟨h'.bytes.trans h.bytes, h'.result.trans h.result, h'.texts.trans h.texts,
    h'.layout.trans h.layout⟩

end CompiledAlike

namespace Diagnostics

theorem texts_reportAll (d : Diagnostics) (fs : List Finding) :
    (d.reportAll fs).texts = d.texts ++ fs.map fun f => f.error.message := by
  rw [texts, messages_reportAll, List.map_append, List.map_map, texts]
  rfl

theorem texts_reportAll_unlined (d : Diagnostics) (r : Report) :
    (d.reportAll r.unlined.findings).texts = (d.reportAll r.findings).texts := by
  rw [texts_reportAll, texts_reportAll, Report.unlined, List.map_map]
  rfl

theorem count_reportAll_unlined (d : Diagnostics) (r : Report) :
    (d.reportAll r.unlined.findings).count = (d.reportAll r.findings).count := by
  rw [count_reportAll, count_reportAll, Report.unlined, List.length_map]

end Diagnostics

section Compile
variable (o : Options) (p : Program .bare) (s : Sink) (d : Diagnostics)

theorem runCheck_unlined :
    (runCheck o p.unlined d).diagnostics.texts = (runCheck o p d).diagnostics.texts ∧
      (runCheck o p.unlined d).result = (runCheck o p d).result.map Checked.unlined := by
  rw [runCheck, runCheck, check_unlined, Check.hierarchy_unlined]
  split
  · constructor
    · exact d.texts_reportAll_unlined _
    · dsimp only
      rw [d.count_reportAll_unlined]
      rfl
  · constructor
    · exact d.texts_reportAll_unlined _
    · dsimp only
      rw [d.count_reportAll_unlined]
      cases (check o.checking p).result <;> rfl

/-- Nothing of the layout is lost with the lines. -/
theorem analyze_unlined :
    (analyze o p.unlined d).diagnostics.texts = (analyze o p d).diagnostics.texts ∧
      (analyze o p.unlined d).result = (analyze o p d).result.map Analysis.unlined := by
  obtain ⟨texts, result⟩ := runCheck_unlined o p d
  rw [analyze, analyze, result]
  dsimp only
  cases (runCheck o p d).result with
  | error e => exact ⟨texts, rfl⟩
  | ok c =>
    have computed := Layout.compute_unlined o.layout c.table
    dsimp only [Except.map, Checked.unlined]
    rw [computed]
    generalize Layout.compute o.layout c.table = x
    obtain ⟨t, layout⟩ := x
    cases layout with
    | error e => exact ⟨texts, rfl⟩
    | ok layout =>
      refine ⟨?_, rfl⟩
      dsimp only [Prod.map, id]
      split
      · exact texts
      · exact texts

theorem write_unlined (text : String) {failure failure' : Option CodegenError}
    (h : failure'.map CodegenError.unlined = failure.map CodegenError.unlined) :
    (s.write text failure').result.mapError CompileError.unlined =
      (s.write text failure).result.mapError CompileError.unlined := by
  unfold Sink.write
  split
  · cases failure with
    | none =>
      obtain rfl := Option.map_eq_none_iff.mp h
      rfl
    | some e =>
      obtain ⟨e', rfl, same⟩ := Option.map_eq_some_iff.mp h
      exact congrArg (Except.error ∘ CompileError.lacking) same
  · rfl

theorem write_bytes (text : String) (failure failure' : Option CodegenError) :
    (s.write text failure').bytes = (s.write text failure).bytes := rfl

theorem generate_unlined (a : Analysis) :
    (a.unlined.generate s).bytes = (a.generate s).bytes ∧
      (a.unlined.generate s).result.mapError CompileError.unlined =
        (a.generate s).result.mapError CompileError.unlined := by
  obtain ⟨module, failure⟩ := Codegen.generate_unlined a.table a.layout a.program
  rw [Analysis.generate, Analysis.generate]
  dsimp only [Analysis.unlined]
  rw [module]
  exact ⟨write_bytes s _ _ _, write_unlined s _ failure⟩

/-- A program is compiled like the program without its lines. -/
theorem compiledAlike_unlined : CompiledAlike o s d p p.unlined where
  bytes := by
    rw [compile, compile]
    cases o.stopAfter with
    | semantics => rfl
    | codegen =>
      dsimp only
      rw [(analyze_unlined o p d).2]
      cases (analyze o p d).result with
      | error e => rfl
      | ok a => exact (generate_unlined s a).1
  result := by
    rw [compile, compile]
    cases o.stopAfter with
    | semantics =>
      dsimp only [nothing]
      rw [(runCheck_unlined o p d).2]
      cases (runCheck o p d).result <;> rfl
    | codegen =>
      dsimp only
      rw [(analyze_unlined o p d).2]
      cases (analyze o p d).result with
      | error e => rfl
      | ok a => exact (generate_unlined s a).2
  texts := by
    rw [compile, compile]
    cases o.stopAfter with
    | semantics => exact (runCheck_unlined o p d).1
    | codegen =>
      obtain ⟨texts, result⟩ := analyze_unlined o p d
      dsimp only
      rw [result]
      cases (analyze o p d).result with
      | error e => exact texts
      | ok a => exact texts
  layout := by
    rw [(analyze_unlined o p d).2]
    cases (analyze o p d).result with
    | error e => rfl
    | ok a => exact congrArg (fun text => some (a.layout, text)) (Layout.describe_unlined _ _)

end Compile

/-- Lines never influence what is written, what is reported and how classes are laid out. -/
theorem compile_ignores_lines {p q : Program .bare} (h : p.alike q = true) (o : Options) (s : Sink)
    (d : Diagnostics) : CompiledAlike o s d p q := by
  have left := compiledAlike_unlined o p s d
  have right := compiledAlike_unlined o q s d
  rw [← Program.unlined_eq h] at right
  exact left.trans right.symm

/-- Everything in `Check.branches` stands at line 1. -/
theorem compile_ignores_lines_branches :
    Check.branches.alike Check.branches.unlined = true ∧
      CompiledAlike { dump := true } {} {} Check.branches Check.branches.unlined := by
  have alike : Check.branches.alike Check.branches.unlined = true := by decide +kernel
  exact ⟨alike, compile_ignores_lines alike { dump := true } {} {}⟩

end MiniJava
