import MiniJava.CommandLine.Command

/-! The arguments of a run. An argument that begins with a minus and is more than that is an option; a
long one may begin with more than two. The value of a setting is the next argument, or what follows an
equals sign (after `-o` also without one), and equals signs in front of it do not belong to it. A value
of a switch does not matter. Behind `--` all arguments are paths. -/
namespace MiniJava.CommandLine

inductive Switch where
  | check
  | failFast
  | strict
  | parentPrefix
  | dump
  deriving DecidableEq, Repr

def Switch.all : List Switch := [.check, .failFast, .strict, .parentPrefix, .dump]

def Switch.name : Switch → String
  | .check => "check"
  | .failFast => "fail-fast"
  | .strict => "strict-field-init"
  | .parentPrefix => "parent-prefix-layout"
  | .dump => "dump-class-layouts"

inductive Setting where
  | output
  | maxErrors
  deriving DecidableEq, Repr

def Setting.all : List Setting := [.output, .maxErrors]

def Setting.name : Setting → String
  | .output => "output"
  | .maxErrors => "max-errors"

/-- What an argument says by itself. -/
inductive Word where
  | path (path : String)
  | switch (s : Switch)
  | setting (s : Setting) (value : Option String)
  | version
  deriving DecidableEq, Repr

def isOption (arg : String) : Bool := arg.startsWith "-" && arg != "-"

def valueOf (cs : List Char) : String := String.ofList (cs.dropWhile (· == '='))

def attached? : List Char → Option String
  | [] => none
  | cs => some (valueOf cs)

def long? (cs : List Char) : Option Word :=
  let name := String.ofList (cs.takeWhile (· != '='))
  let value := attached? (cs.dropWhile (· != '='))
  match Setting.all.find? (·.name == name), Switch.all.find? (·.name == name) with
  | some s, _ => some (.setting s value)
  | _, some s => some (.switch s)
  | _, _ => if name = "version" then some .version else none

def short? : List Char → Option Word
  | 'o' :: cs => some (.setting .output (attached? cs))
  | 'V' :: _ => some .version
  | _ => none

def word? (arg : String) : Option Word :=
  match arg.toList with
  | '-' :: '-' :: cs => long? (cs.dropWhile (· == '-'))
  | '-' :: c :: cs => short? (c :: cs)
  | _ => some (.path arg)

/-- What has been given so far; a setting may lack its value. -/
structure Given where
  inputs : List String := []
  switches : List Switch := []
  settings : List (Setting × Option String) := []

/-- Digits, perhaps after a plus. -/
def count? (text : String) : Option Nat :=
  let digits := match text.toList with
    | '+' :: ds => ds
    | ds => ds
  if digits.isEmpty || !digits.all Char.isDigit then none
  else
    let n := digits.foldl (fun n d => 10 * n + (d.toNat - '0'.toNat)) 0
    if n < UInt64.size then some n else none

namespace Given

def set (g : Given) (s : Setting) (value : Option String) : Given :=
  { g with settings := (s, value) :: g.settings }

def values (g : Given) (s : Setting) : List (Option String) :=
  (g.settings.filter (·.1 == s)).map (·.2)

/-- Asked for once with a value, or not at all. -/
def value? (g : Given) (s : Setting) : Option (Option String) :=
  match g.values s with
  | [] => some none
  | [some value] => some (some value)
  | _ => none

def limit? : Option String → Option (Option Nat)
  | none => some none
  | some text => (count? text).map some

/-- There has to be one input, and nothing is given twice. -/
def command? (g : Given) : Option Command :=
  match g.inputs with
  | [input] =>
    if g.switches.Nodup then do
      let output ← g.value? .output
      let maxErrors ← (g.value? .maxErrors).bind limit?
      return { input, output, maxErrors
               check := g.switches.contains .check
               failFast := g.switches.contains .failFast
               strict := g.switches.contains .strict
               parentPrefix := g.switches.contains .parentPrefix
               dump := g.switches.contains .dump }
    else none
  | _ => none

end Given

inductive Request where
  | version
  | run (c : Command)
  deriving DecidableEq, Repr

structure State where
  given : Given := {}
  /-- a setting whose value has to come -/
  pending : Option Setting := none
  pathsOnly : Bool := false

/-- Where reading stands after an argument. -/
inductive Progress where
  | going (s : State)
  | version
  | refused

namespace State

def addPath (s : State) (path : String) : Progress :=
  if s.given.inputs.isEmpty then .going { s with given := { s.given with inputs := [path] } }
  else .refused

def word (s : State) (arg : String) : Progress :=
  if arg = "--" then .going { s with pathsOnly := true }
  else match word? arg with
    | none => .refused
    | some .version => .version
    | some (.path path) => s.addPath path
    | some (.switch w) => .going { s with given := { s.given with switches := w :: s.given.switches } }
    | some (.setting w (some value)) => .going { s with given := s.given.set w (some value) }
    | some (.setting w none) => .going { s with pending := some w }

def step (s : State) (arg : String) : Progress :=
  if s.pathsOnly then s.addPath arg
  else match s.pending with
    | none => s.word arg
    | some w =>
      if isOption arg then word { s with given := s.given.set w none, pending := none } arg
      else .going { s with given := s.given.set w (some arg), pending := none }

def finish (s : State) : Option Request :=
  match s.pending with
  | some _ => none
  | none => s.given.command?.map .run

def read (s : State) : List String → Option Request
  | [] => s.finish
  | arg :: args =>
    match s.step arg with
    | .going s => s.read args
    | .version => some .version
    | .refused => none

end State

/-- What the arguments ask for; `none` if they are not understood. -/
def parse? (args : List String) : Option Request := State.read {} args

end MiniJava.CommandLine
