/-! Styled text. A terminal is reset before and after each piece of styled text, and at both ends of
what is written at once; elsewhere styles leave no trace. -/
namespace MiniJava.Terminal

inductive Color where
  | red
  | green
  | blue
  deriving DecidableEq, Repr

structure Style where
  color : Option Color := none
  bold : Bool := false

inductive Span where
  | plain (text : String)
  | styled (style : Style) (text : String)

inductive Mode where
  | plain
  | ansi
  deriving DecidableEq, Repr

def escape (code : String) : String := "\x1b[" ++ code ++ "m"

def Color.code : Color → String
  | .red => "31"
  | .green => "32"
  | .blue => "34"

def Mode.reset : Mode → String
  | .plain => ""
  | .ansi => escape "0"

def Mode.start : Mode → Style → String
  | .plain, _ => ""
  | .ansi, s =>
    escape "0" ++ (if s.bold then escape "1" else "") ++
      ((s.color.map fun c => escape c.code).getD "")

def Span.text (mode : Mode) : Span → String
  | .plain text => text
  | .styled style text => mode.start style ++ text ++ mode.reset

def render (mode : Mode) (spans : List Span) : String :=
  mode.reset ++ String.join (spans.map (·.text mode)) ++ mode.reset

end MiniJava.Terminal
