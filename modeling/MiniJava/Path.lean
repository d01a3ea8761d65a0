import MiniJava.Character

/-! Paths as texts. Separators and `.` components at the end of a path do not belong to its last
name; `.`, `..` and the root are no file names. In messages paths stand in quotes, with double quotes,
backslashes and characters that would not show as themselves escaped. -/
namespace MiniJava.Path

/-- The names between separators. -/
def names (path : String) : List String :=
  ((path.toList.splitOn '/').filter (!·.isEmpty)).map String.ofList

/-- Leaves out separators and `.` components at the front of a reversed path. -/
def trim : List Char → List Char
  | '/' :: cs => trim cs
  | '.' :: '/' :: cs => trim cs
  | cs => cs

/-- What stands before the last name, and the name, unless it is no file name. -/
def split? (path : String) : Option (List Char × List Char) :=
  let cs := trim path.toList.reverse
  let name := (cs.takeWhile (· != '/')).reverse
  let folder := (cs.dropWhile (· != '/')).reverse
  if name = [] ∨ name = ['.'] ∨ name = ['.', '.'] then none else some (folder, name)

/-- A name before and after its last dot; a dot at the front does not count. -/
def stemAndExtension (name : List Char) : List Char × List Char :=
  let cs := name.reverse
  match cs.dropWhile (· != '.') with
  | _ :: c :: stem => ((c :: stem).reverse, (cs.takeWhile (· != '.')).reverse)
  | _ => (name, [])

/-- Puts an extension after the stem of the file name. -/
def setExtension (ext : String) (path : String) : String :=
  match split? path with
  | none => path
  | some (folder, name) => String.ofList (folder ++ (stemAndExtension name).1) ++ "." ++ ext

/-- Cuts off the old extension and puts a new one in its place, if what is left is a file name. -/
def withExtension (ext : String) (path : String) : String :=
  match split? path with
  | none => path
  | some (_, name) =>
    let cs := path.toList
    let old := (stemAndExtension name).2.length
    setExtension ext (String.ofList (cs.take (cs.length - old)))

/-- Whether a path is one name and nothing else. -/
def isName (name : String) (path : String) : Bool :=
  trim path.toList.reverse == name.toList.reverse

/-- Characters that are shown by their number: inside quotes they would be lost or would change the
character before them. -/
def isHidden (c : Char) : Bool := Character.isExtender c || Character.isShapeless c

/-- The number of a character between braces. -/
def numbered (c : Char) : String :=
  "\\u\x7b" ++ String.ofList (Nat.toDigits 16 c.toNat) ++ "\x7d"

def quoteChar (c : Char) : String :=
  if c == '"' then "\\\""
  else if c == '\\' then "\\\\"
  else if c == '\n' then "\\n"
  else if c == '\r' then "\\r"
  else if c == '\t' then "\\t"
  else if c.toNat == 0 then "\\0"
  else if isHidden c then numbered c
  else String.singleton c

def quoted (path : String) : String :=
  "\"" ++ String.join (path.toList.map quoteChar) ++ "\""

end MiniJava.Path
