/-! What stands at the top of every module: the functions of the C library, the texts that are
printed, and the functions that print a number and stop after an error. -/
namespace MiniJava.IR

inductive Builtin where
  | calloc
  | printf
  | exit
  | printInt
  | outOfBounds
  | negativeSize
  deriving DecidableEq, Repr

namespace Builtin

def all : List Builtin := [calloc, printf, exit, printInt, outOfBounds, negativeSize]

def name : Builtin → String
  | calloc => "calloc"
  | printf => "printf"
  | exit => "exit"
  | printInt => "print_int"
  | outOfBounds => "throw_oob"
  | negativeSize => "throw_nsz"

/-- Declared here and defined in the C library. -/
def isExternal : Builtin → Bool
  | calloc | printf | exit => true
  | printInt | outOfBounds | negativeSize => false

end Builtin

/-- A text that ends with a line end and a zero byte. -/
structure FixedText where
  name : String
  size : Nat
  chars : String

namespace FixedText

def intFormat : FixedText := ⟨"_cint", 4, "%d"⟩

def outOfBounds : FixedText := ⟨"_cOOB", 15, "Out of bounds"⟩

def negativeSize : FixedText := ⟨"_cNSZ", 15, "Negative size"⟩

def all : List FixedText := [intFormat, outOfBounds, negativeSize]

def text (c : FixedText) : String :=
  s!"@{c.name} = constant [{c.size} x i8] c\"" ++ c.chars ++ "\\0a\\00\"\n"

def pointer (c : FixedText) : String :=
  s!"\t%_str = bitcast [{c.size} x i8]* @{c.name} to i8*\n"

end FixedText

/-- Prints a fixed text and leaves with status 1. -/
def stopText (b : Builtin) (c : FixedText) : String :=
  s!"define void @{b.name}() \x7b\n" ++ c.pointer ++
    "\tcall i32 (i8*, ...) @printf(i8* %_str)\n\tcall void @exit(i32 1)\n\tret void\n\x7d\n"

def Builtin.text : Builtin → String
  | .calloc => "declare i8* @calloc(i32, i32)\n"
  | .printf => "declare i32 @printf(i8*, ...)\n"
  | .exit => "declare void @exit(i32)\n"
  | .printInt =>
    "define void @print_int(i32 %i) \x7b\n" ++ FixedText.intFormat.pointer ++
      "\tcall i32 (i8*, ...) @printf(i8* %_str, i32 %i)\n\tret void\n\x7d\n"
  | .outOfBounds => stopText .outOfBounds FixedText.outOfBounds
  | .negativeSize => stopText .negativeSize FixedText.negativeSize

def prelude : String :=
  String.join ((Builtin.all.filter (·.isExternal)).map (·.text)) ++ "\n" ++
    String.join (FixedText.all.map (·.text)) ++
    String.join ((Builtin.all.filter (!·.isExternal)).map fun b => "\n" ++ b.text) ++ "\n"

end MiniJava.IR
