import MiniJava.IR.Instr
import MiniJava.IR.Prelude
import MiniJava.Layout.Object

/-! Functions and modules. A function that was left unfinished ends after its last line. A module is the
prelude, a table of methods for each class, and functions. -/
namespace MiniJava.IR

/-- The first line of a function. -/
structure Header where
  result : IRType
  name : String
  params : List (IRType × Value)

def Header.text (h : Header) : String :=
  "define " ++ h.result.text ++ " @" ++ h.name ++ "(" ++ argTexts h.params ++ ") \x7b\n"

structure Function where
  header : Header
  body : List Line
  finished : Bool

def codeText (code : List Line) : String := String.join (code.map (·.text))

def Function.text (f : Function) : String :=
  f.header.text ++ codeText f.body ++ if f.finished then "\x7d\n\n" else ""

structure Module where
  layout : Layout
  functions : List Function

def Module.text (m : Module) : String :=
  prelude ++ m.layout.vtablesText ++ String.join (m.functions.map (·.text))

end MiniJava.IR
