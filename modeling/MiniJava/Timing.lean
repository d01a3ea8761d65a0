import MiniJava.Json.Printer
import MiniJava.Json.Record

/-! Measurements of time, as a table for readers and as JSON. In the table the labels are indented by
two spaces for each level of nesting and take 50 columns with their indentation, so they can be
nested 25 levels deep; times are whole milliseconds in six columns. -/
namespace MiniJava.Timing
open Json

structure Measurement where
  label : String
  indent : Nat
  secs : Nat
  nanos : Nat
  deriving DecidableEq, Repr

def nanosPerSec : Nat := 1000000000

def labelColumns : Nat := 50

def timeColumns : Nat := 6

def Measurement.millis (m : Measurement) : Nat := m.secs * 1000 + m.nanos / 1000000

def spaces (n : Nat) : String := String.ofList (List.replicate n ' ')

def padRight (width : Nat) (s : String) : String := s ++ spaces (width - s.length)

def padLeft (width : Nat) (s : String) : String := spaces (width - s.length) ++ s

/-- A line of the table; none if the indentation needs more columns than there are. -/
def Measurement.row? (m : Measurement) : Option String :=
  let indent := 2 * m.indent
  if indent ≤ labelColumns then
    some (spaces indent ++ padRight (labelColumns - indent) m.label ++ spaces 4 ++
      padLeft timeColumns (toString m.millis) ++ "ms\n")
  else none

def table? (ms : List Measurement) : Option String := (ms.mapM Measurement.row?).map String.join

def field (name : String) (v : Json) : Option String × Json := (some name, v)

def Measurement.toJson (m : Measurement) : Json :=
  .obj [field "label" (.str (some m.label)), field "indent" (.int m.indent),
    field "duration" (.obj [field "secs" (.int m.secs), field "nanos" (.int m.nanos)])]

def toJson (ms : List Measurement) : Json := .arr (ms.map (·.toJson))

/-- Seconds and nanoseconds, where a full second of nanoseconds counts as a second. -/
def duration? (v : Json) : Option (Nat × Nat) :=
  match strictRecord? ["secs", "nanos"] v with
  | some [some secs, some nanos] => do
    let secs ← nat64? secs
    let nanos ← natBelow? UInt32.size nanos
    let secs := secs + nanos / nanosPerSec
    if secs < UInt64.size then return (secs, nanos % nanosPerSec) else none
  | _ => none

def measurement? (v : Json) : Option Measurement :=
  match record? ["label", "indent", "duration"] v with
  | some [some label, some indent, some duration] => do
    let label ← text? label
    let indent ← nat64? indent
    let (secs, nanos) ← duration? duration
    return ⟨label, indent, secs, nanos⟩
  | _ => none

def ofJson? : Json → Option (List Measurement)
  | .arr items => items.mapM measurement?
  | _ => none

end MiniJava.Timing
