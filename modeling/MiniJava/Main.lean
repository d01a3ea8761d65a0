import MiniJava.CommandLine

/-! The program: reads arguments and files, and writes what a run has planned. -/
namespace MiniJava

def usage : String :=
  "usage: [-o PATH] [--check] [--max-errors N] [--fail-fast] [--strict-field-init] " ++
    "[--parent-prefix-layout] [--dump-class-layouts] [--version] FILE\n"

/-- The number of a file error; some calls give it with a minus. -/
def errorCode? : IO.Error → Option UInt32
  | .noFileOrDirectory _ code _ | .inappropriateType _ code _ | .invalidArgument _ code _
  | .resourceExhausted _ code _ => some (min code (0 - code))
  | _ => none

def fileError? (e : IO.Error) : Option FileError :=
  (errorCode? e).bind fun code => FileError.all.find? (·.code == code.toNat)

def causeOf (e : IO.Error) : String :=
  match fileError? e with
  | some e => e.message
  | none => toString e

def readSource (path : String) : IO CommandLine.Source := do
  try
    return .text (Document.decode (← IO.FS.readBinFile path))
  catch e => return if fileError? e = some .isFolder then .unreadable else .missing (causeOf e)

def terminalMode : IO Terminal.Mode := do
  let term ← IO.getEnv "TERM"
  return if term.any (· != "dumb") then .ansi else .plain

def perform (p : CommandLine.Plan) : IO Bool := do
  let stderr ← IO.getStderr
  stderr.putStr p.stderr
  match p.write with
  | none => return p.failed
  | some (.stdout, text) =>
    (← IO.getStdout).putStr text
    return p.failed
  | some (.file path, text) =>
    try
      IO.FS.writeFile path text
      return p.failed
    catch e =>
      stderr.putStr (CommandLine.cannotWrite path (causeOf e))
      return true

end MiniJava

def main (args : List String) : IO UInt32 := do
  match MiniJava.CommandLine.parse? args with
  | none =>
    (← IO.getStderr).putStr MiniJava.usage
    return 1
  | some .version =>
    (← IO.getStdout).putStr MiniJava.CommandLine.versionText
    return 0
  | some (.run command) =>
    let mode ← MiniJava.terminalMode
    let source ← MiniJava.readSource command.input
    let failed ← MiniJava.perform (MiniJava.CommandLine.plan command mode source)
    return if failed then 1 else 0
