import MiniJava.Codegen.Damage
import MiniJava.Codegen.Generate
import MiniJava.Diagnostics

/-! Compilation: semantic analysis, layout, code. The module goes to a sink, which may take only so
many bytes; code is generated only for a program that was reported to have no errors. -/
namespace MiniJava

inductive Phase where
  | semantics
  | codegen
  deriving DecidableEq, Repr

def Phase.all : List Phase := [.semantics, .codegen]

def Phase.name : Phase → String
  | .semantics => "semantic analysis"
  | .codegen => "code generation"

structure Options where
  maxErrors : Option Nat := none
  strict : Bool := false
  layout : Layout.Strategy := .sharedRootCounter
  /-- describe the layout of every class -/
  dump : Bool := false
  /-- nothing is done after this phase -/
  stopAfter : Phase := .codegen

namespace Options

def failFast (o : Options) : Options := { o with maxErrors := some 1 }

def checking (o : Options) : CheckOptions := ⟨o.maxErrors, o.strict⟩

end Options

inductive CompileError where
  | aborted (pass : Pass) (errors : Nat)
  | lacking (e : CodegenError)
  | sinkFull
  deriving DecidableEq, Repr

def CompileError.message : CompileError → String
  | aborted pass errors =>
    "compilation aborted after the " ++ pass.name ++ s!" pass due to {errors} error(s)"
  | lacking e => e.message
  | sinkFull => "sink is full"

/-- An error and what it comes from, outermost first. -/
def errorText (error : String) (causes : List String) : String :=
  s!"error: {error}\n" ++ String.join (causes.map fun c => s!"caused by: {c}\n")

/-- A checked program with the layout of its classes. -/
structure Analysis where
  table : ClassTable
  program : Program .checked
  layout : Layout

structure Outcome (α : Type) where
  diagnostics : Diagnostics
  result : Except CompileError α

/-- After every pass the check stops if there is any error, one from before the check as well. -/
def runCheck (o : Options) (p : Program .bare) (d : Diagnostics) : Outcome Checked :=
  if d.errored then
    let d := d.reportAll (Check.hierarchy o.maxErrors p).report.findings
    ⟨d, .error (.aborted .hierarchy d.count)⟩
  else
    let v := check o.checking p
    let d := d.reportAll v.report.findings
    ⟨d, v.result.mapError fun s => .aborted s.pass d.count⟩

def analyze (o : Options) (p : Program .bare) (d : Diagnostics) : Outcome Analysis :=
  let checked := runCheck o p d
  match checked.result with
  | .error e => ⟨checked.diagnostics, .error e⟩
  | .ok c =>
    match Layout.compute o.layout c.table with
    | (_, .error e) => ⟨checked.diagnostics, .error (.lacking e)⟩
    | (table, .ok layout) =>
      let d := if o.dump then checked.diagnostics.note (layout.describe table) else checked.diagnostics
      ⟨d, .ok ⟨table, c.program, layout⟩⟩

/-- A sink; `limit` is the number of bytes it takes. -/
structure Sink where
  limit : Option Nat := none

namespace Sink

def accepts (s : Sink) (text : String) : Bool :=
  match s.limit with
  | none => true
  | some n => text.utf8ByteSize ≤ n

/-- How many bytes of a text the sink takes. -/
def taken (s : Sink) (text : String) : Nat :=
  match s.limit with
  | none => text.utf8ByteSize
  | some n => min n text.utf8ByteSize

end Sink

/-- A text that was to be written, and how many of its bytes were. -/
structure Written where
  text : String
  taken : Nat
  result : Except CompileError Unit

def Written.bytes (w : Written) : ByteArray := w.text.toUTF8.extract 0 w.taken

/-- Writes a module as far as the sink takes it. -/
def Sink.write (s : Sink) (text : String) (failure : Option CodegenError) : Written :=
  ⟨text, s.taken text,
    if s.accepts text then
      match failure with
      | none => .ok ()
      | some e => .error (.lacking e)
    else .error .sinkFull⟩

def Analysis.generate (a : Analysis) (s : Sink) : Written :=
  let (m, failure) := Codegen.generate a.table a.layout a.program
  s.write m.text failure

def Analysis.damaged (a : Analysis) (d : Codegen.Damage) : Analysis :=
  ⟨d.table a.table, d.program a.program, a.layout⟩

structure Compiled where
  diagnostics : Diagnostics
  written : Written

def nothing (result : Except CompileError Unit) : Written := ⟨"", 0, result⟩

def compile (o : Options) (p : Program .bare) (s : Sink) (d : Diagnostics) : Compiled :=
  match o.stopAfter with
  | .semantics =>
    let checked := runCheck o p d
    ⟨checked.diagnostics, nothing (checked.result.map fun _ => ())⟩
  | .codegen =>
    let analyzed := analyze o p d
    match analyzed.result with
    | .error e => ⟨analyzed.diagnostics, nothing (.error e)⟩
    | .ok a => ⟨analyzed.diagnostics, a.generate s⟩

end MiniJava
