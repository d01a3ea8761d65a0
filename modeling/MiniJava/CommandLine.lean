import MiniJava.CommandLine.Arguments
import MiniJava.Document.Reader
import MiniJava.Folder
import MiniJava.Path

/-! The command line. A run reads one file, writes messages, and writes at most one file or the
standard output, and that only when the whole module has been compiled. -/
namespace MiniJava.CommandLine

/-- What opening and reading the input gave. -/
inductive Source where
  | missing (cause : String)
  | unreadable
  | text (content : String)

/-- What a run does once the input has been read. -/
structure Plan where
  stderr : String
  failed : Bool
  write : Option (Output × String) := none

def stop (stderr error : String) (causes : List String) : Plan :=
  ⟨stderr ++ errorText error causes, true, none⟩

def malformed (c : Command) : Plan :=
  stop "" ("input file " ++ Path.quoted c.input ++ " is not a valid syntax tree") []

def planProgram (c : Command) (mode : Terminal.Mode) (p : Program .bare) : Plan :=
  let compiled := compile c.options p {} { mode }
  match compiled.written.result with
  | .error e => stop compiled.diagnostics.statistics.written e.message []
  | .ok () =>
    ⟨compiled.diagnostics.written, false,
      if c.check then none else some (c.destination, compiled.written.text)⟩

def plan (c : Command) (mode : Terminal.Mode) : Source → Plan
  | .missing cause => stop "" ("cannot open input file " ++ Path.quoted c.input) [cause]
  | .unreadable => malformed c
  | .text content =>
    match Document.read? content with
    | none => malformed c
    | some p => planProgram c mode p

def cannotWrite (path cause : String) : String :=
  errorText ("cannot write output file " ++ Path.quoted path) [cause]

structure Finished where
  failed : Bool
  stdout : String
  stderr : String
  system : FileSystem

def sourceIn (s : FileSystem) (path : String) : Source :=
  match s.read path with
  | .error e => .missing e.message
  | .ok none => .unreadable
  | .ok (some bytes) => .text (Document.decode bytes)

def run (c : Command) (mode : Terminal.Mode) (s : FileSystem) : Finished :=
  let p := plan c mode (sourceIn s c.input)
  match p.write with
  | none => ⟨p.failed, "", p.stderr, s⟩
  | some (.stdout, text) => ⟨p.failed, text, p.stderr, s⟩
  | some (.file path, text) =>
    match s.write path text.toUTF8 with
    | .ok (.stored s) => ⟨p.failed, "", p.stderr, s⟩
    | .ok (.sent .stdout) => ⟨p.failed, text, p.stderr, s⟩
    | .ok (.sent .stderr) => ⟨p.failed, "", p.stderr ++ text, s⟩
    | .ok (.sent _) => ⟨p.failed, "", p.stderr, s⟩
    | .error e => ⟨true, "", p.stderr ++ cannotWrite path e.message, s⟩

def versionText : String := "compiler-cli 0.0.1\n"

/-- What is seen of a run in a folder. -/
structure Reply where
  failed : Bool
  stdout : String
  stderr : String
  folder : Folder

def respond (mode : Terminal.Mode) (f : Folder) : Request → Reply
  | .version => ⟨false, versionText, "", f⟩
  | .run c =>
    let r := run c mode f.system
    ⟨r.failed, r.stdout, r.stderr, .after r.system⟩

end MiniJava.CommandLine
