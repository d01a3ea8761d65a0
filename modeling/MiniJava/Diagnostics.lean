import MiniJava.Check.Report
import MiniJava.Terminal

/-! Messages for the user: each is kept, and written with colors if the terminal has them. Notes are
only written. -/
namespace MiniJava

open Terminal

/-- There is one level, the error. -/
structure Message where
  line : Nat
  text : String
  deriving DecidableEq, Repr

def Message.level : String := "error"

def Message.record (m : Message) : String := s!"line {m.line}: {Message.level}: {m.text}"

def Message.spans (m : Message) : List Span :=
  [.styled { bold := true } s!"line {m.line}: ",
    .styled { color := some .red, bold := true } (Message.level ++ ": "), .plain (m.text ++ "\n")]

structure Diagnostics where
  mode : Mode := .plain
  messages : List Message := []
  written : String := ""

namespace Diagnostics

def write (d : Diagnostics) (text : String) : Diagnostics := { d with written := d.written ++ text }

def error (d : Diagnostics) (line : Nat) (text : String) : Diagnostics :=
  let m : Message := ⟨line, text⟩
  { d.write (render d.mode m.spans) with messages := d.messages ++ [m] }

def note (d : Diagnostics) (text : String) : Diagnostics := d.write text

def count (d : Diagnostics) : Nat := d.messages.length

def errored (d : Diagnostics) : Bool := d.count != 0

def summary (d : Diagnostics) : String :=
  match d.count with
  | 0 => "Compilation finished successfully"
  | 1 => "Compilation aborted due to an error"
  | n => s!"Compilation aborted due to {n} errors"

def statistics (d : Diagnostics) : Diagnostics :=
  let color := if d.errored then Color.red else Color.green
  d.write (render d.mode [.styled { color := some color, bold := true } (d.summary ++ "\n")])

def reportAll (d : Diagnostics) (fs : List Finding) : Diagnostics :=
  fs.foldl (fun d f => d.error f.line f.error.message) d

def records (d : Diagnostics) : List String := d.messages.map (·.record)

end Diagnostics

end MiniJava
