import MiniJava.Path

/-! A file system, as far as opening files by paths goes: what stands at each place, and what each file
holds. A file may stand at several places, and a link leads on by a path of its own. -/
namespace MiniJava

inductive FileError where
  | notFound
  | notFolder
  | isFolder
  | noSpace
  | nameTooLong
  | tooManyLinks
  deriving DecidableEq, Repr

namespace FileError

def all : List FileError :=
  [notFound, notFolder, isFolder, noSpace, nameTooLong, tooManyLinks]

/-- The number the operating system gives to the error. -/
def code : FileError → Nat
  | notFound => 2
  | notFolder => 20
  | isFolder => 21
  | noSpace => 28
  | nameTooLong => 36
  | tooManyLinks => 40

def text : FileError → String
  | notFound => "No such file or directory"
  | notFolder => "Not a directory"
  | isFolder => "Is a directory"
  | noSpace => "No space left on device"
  | nameTooLong => "File name too long"
  | tooManyLinks => "Too many levels of symbolic links"

def message (e : FileError) : String := s!"{e.text} (os error {e.code})"

end FileError

/-- Devices that take what is written to them, `full` excepted. -/
inductive Device where
  | null
  | zero
  | full
  | stdin
  | stdout
  | stderr
  deriving DecidableEq, Repr

namespace Device

def all : List Device := [.null, .zero, .full, .stdin, .stdout, .stderr]

def name : Device → String
  | .null => "null"
  | .zero => "zero"
  | .full => "full"
  | .stdin => "stdin"
  | .stdout => "stdout"
  | .stderr => "stderr"

/-- What is read from a device; none if that fails or has no end. -/
def content? (stdin : ByteArray) : Device → Option ByteArray
  | .null => some .empty
  | .stdin => some stdin
  | _ => none

end Device

namespace FileSystem

/-- The names that lead there from the root, through folders only. -/
abbrev Place := List String

/-- What tells a file from others, however it is reached. -/
abbrev FileId := Nat

inductive Node where
  | folder
  | file (id : FileId)
  | device (d : Device)
  deriving DecidableEq, Repr

inductive Entry where
  | node (n : Node)
  | link (target : String)
  deriving DecidableEq, Repr

def Entry.file? : Entry → Option FileId
  | .node (.file id) => some id
  | _ => none

end FileSystem

structure FileSystem where
  entries : List (FileSystem.Place × FileSystem.Entry)
  /-- what files hold, what was written last first -/
  contents : List (FileSystem.FileId × ByteArray)
  /-- the folder that a run is in -/
  current : FileSystem.Place
  stdin : ByteArray

namespace FileSystem

/-- The root is always there. -/
def item? (s : FileSystem) (p : Place) : Option Entry :=
  if p = [] then some (.node .folder) else s.entries.lookup p

def node? (s : FileSystem) (p : Place) : Option Node :=
  match s.item? p with
  | some (.node n) => some n
  | _ => none

def content (s : FileSystem) (id : FileId) : ByteArray := (s.contents.lookup id).getD .empty

/-- Bytes of the longest name. -/
def maxName : Nat := 255

/-- Bytes of the longest path. -/
def maxPath : Nat := 4095

/-- Links that one path may lead through. -/
def maxLinks : Nat := 40

/-- Where names lead before the next link is followed. -/
inductive Stop where
  | arrived (p : Place)
  /-- a link in a folder, and the names that come after it -/
  | link (folder : Place) (target : String) (rest : List String)

/-- Follows names; all but the last have to be folders. A separator at the end is an empty last name, and
nothing is created behind it. -/
def advance (s : FileSystem) (create : Bool) (p : Place) : List String → Except FileError Stop
  | [] =>
    match s.item? p with
    | some (.link target) => .ok (.link p.dropLast target [])
    | _ => .ok (.arrived p)
  | name :: rest =>
    match s.item? p with
    | none => .error .notFound
    | some (.link target) => .ok (.link p.dropLast target (name :: rest))
    | some (.node .folder) =>
      if name = "" ∨ name = "." then s.advance create p rest
      else if name = ".." then s.advance create p.dropLast rest
      else if create ∧ rest = [""] then .error .isFolder
      else if maxName < name.utf8ByteSize then .error .nameTooLong
      else s.advance create (p ++ [name]) rest
    | some (.node _) => .error .notFolder

/-- Where a path starts. -/
def start (current : Place) (path : String) : Place := if path.startsWith "/" then [] else current

/-- The names of a path, and an empty one if it asks for a folder. -/
def trail (path : String) : List String :=
  Path.names path ++ if path.endsWith "/" then [""] else []

/-- Follows names and at most so many links. -/
def follow (s : FileSystem) (create : Bool) (links : Nat) (p : Place) (names : List String) :
    Except FileError Place :=
  match s.advance create p names with
  | .error e => .error e
  | .ok (.arrived q) => .ok q
  | .ok (.link folder target rest) =>
    match links with
    | 0 => .error .tooManyLinks
    | links + 1 => s.follow create links (start folder target) (trail target ++ rest)

/-- Where a path leads, to open what stands there or to create a file; the empty path leads nowhere. -/
def locate (s : FileSystem) (create : Bool) (path : String) : Except FileError Place :=
  if path.isEmpty then .error .notFound
  else if maxPath < path.utf8ByteSize then .error .nameTooLong
  else s.follow create maxLinks (start s.current path) (trail path)

/-- What is read at a place; none if it can be opened, but reading fails. -/
def readAt (s : FileSystem) (p : Place) : Except FileError (Option ByteArray) :=
  match s.node? p with
  | none => .error .notFound
  | some .folder => .ok none
  | some (.file id) => .ok (some (s.content id))
  | some (.device d) => .ok (d.content? s.stdin)

def read (s : FileSystem) (path : String) : Except FileError (Option ByteArray) := do
  s.readAt (← s.locate false path)

def replace (s : FileSystem) (id : FileId) (bytes : ByteArray) : FileSystem :=
  { s with contents := (id, bytes) :: s.contents }

/-- A number that no file has. -/
def fresh (s : FileSystem) : FileId :=
  (s.entries.filterMap fun e => e.2.file?).foldr (fun id n => max (id + 1) n) 0

def create (s : FileSystem) (p : Place) (bytes : ByteArray) : FileSystem :=
  { s with
    entries := s.entries ++ [(p, .node (.file s.fresh))]
    contents := (s.fresh, bytes) :: s.contents }

/-- What became of bytes that were written. -/
inductive Effect where
  | stored (s : FileSystem)
  | sent (d : Device)

/-- Creates a file, or replaces what it holds. -/
def writeAt (s : FileSystem) (p : Place) (bytes : ByteArray) : Except FileError Effect :=
  match s.node? p with
  | none => .ok (.stored (s.create p bytes))
  | some .folder => .error .isFolder
  | some (.file id) => .ok (.stored (s.replace id bytes))
  | some (.device .full) => .error .noSpace
  | some (.device d) => .ok (.sent d)

def write (s : FileSystem) (path : String) (bytes : ByteArray) : Except FileError Effect := do
  s.writeAt (← s.locate true path) bytes

end FileSystem

end MiniJava
