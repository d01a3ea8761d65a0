import MiniJava.Check.Body
import MiniJava.Check.Declarations
import MiniJava.Check.Overrides

/-! Semantic analysis: four passes, each of which runs only if none before it reported anything. -/
namespace MiniJava

inductive Pass where
  | hierarchy
  | declarations
  | overrides
  | bodies
  deriving DecidableEq, Repr

def Pass.all : List Pass := [.hierarchy, .declarations, .overrides, .bodies]

def Pass.name : Pass → String
  | .hierarchy => "class hierarchy"
  | .declarations => "declaration"
  | .overrides => "override"
  | .bodies => "method body"

/-- The first pass that reported something. -/
structure Stopped where
  pass : Pass
  deriving DecidableEq, Repr

def Stopped.message (s : Stopped) : String :=
  "semantic analysis stopped after the " ++ s.pass.name ++ " pass"

structure CheckOptions where
  /-- as many findings are reported at most -/
  maxErrors : Option Nat := none
  /-- fields have to be assigned before they are read, like locals -/
  strict : Bool := false

structure Checked where
  table : ClassTable
  program : Program .checked

structure Verdict where
  report : Report
  result : Except Stopped Checked

def check (o : CheckOptions) (p : Program .bare) : Verdict :=
  let h := Check.hierarchy o.maxErrors p
  if h.report.isClean then
    let (t, r) := Check.declarations o.strict h.program h.table h.report
    if r.isClean then
      let r := Check.overrides t r
      if r.isClean then
        let (program, st) := Check.bodies h.program ⟨t, r⟩
        if st.report.isClean then ⟨st.report, .ok ⟨st.table, program⟩⟩
        else ⟨st.report, .error ⟨.bodies⟩⟩
      else ⟨r, .error ⟨.overrides⟩⟩
    else ⟨r, .error ⟨.declarations⟩⟩
  else ⟨h.report, .error ⟨.hierarchy⟩⟩

end MiniJava
