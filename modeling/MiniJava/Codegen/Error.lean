import MiniJava.Syntax

/-! What layout and code generation can lack. None of it is lacking for a program that was checked
and whose notes were left alone. -/
namespace MiniJava

inductive CodegenError where
  | missingAnalysis (kind : String) (line : Nat)
  | missingResolution (kind : String) (line : Nat)
  | missingTarget (name : Name) (line : Nat)
  | missingFieldOffset (name : Name)
  | missingSlot (name : Name)
  | missingClass (name : Name)
  | missingMethod (name : Name)
  /-- a reference to something that is not there -/
  | dangling
  deriving DecidableEq, Repr

def CodegenError.message : CodegenError → String
  | missingAnalysis kind line => s!"no type information for {kind} expression in line {line}"
  | missingResolution kind line => s!"{kind} expression in line {line} was not resolved"
  | missingTarget name line => s!"assignment to {name} in line {line} was not resolved"
  | missingFieldOffset name => s!"field {name} has no offset assigned"
  | missingSlot name => s!"method {name}() has no vtable slot assigned"
  | missingClass name => s!"class {name} was not registered during semantic analysis"
  | missingMethod name => s!"method {name}() was not registered during semantic analysis"
  | dangling => "a reference leads nowhere"

end MiniJava
