import MiniJava.Compile
import MiniJava.Path

/-! What a run is asked to do. -/
namespace MiniJava

inductive Output where
  | stdout
  | file (path : String)
  deriving DecidableEq, Repr

namespace Output

def ofArg (path : String) : Output := if Path.isName "-" path then .stdout else .file path

/-- Beside the input, with the extension of modules. -/
def ofInput (path : String) : Output := .file (Path.withExtension "ll" path)

end Output

structure Command where
  input : String
  output : Option String := none
  check : Bool := false
  maxErrors : Option Nat := none
  failFast : Bool := false
  strict : Bool := false
  parentPrefix : Bool := false
  dump : Bool := false
  deriving DecidableEq, Repr

namespace Command

def options (c : Command) : Options where
  maxErrors := if c.failFast then some 1 else c.maxErrors
  strict := c.strict
  layout := if c.parentPrefix then .parentPrefix else .sharedRootCounter
  dump := c.dump
  stopAfter := if c.check then .semantics else .codegen

def destination (c : Command) : Output :=
  match c.output with
  | some path => .ofArg path
  | none => .ofInput c.input

end Command

end MiniJava
