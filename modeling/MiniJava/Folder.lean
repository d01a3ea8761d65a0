import MiniJava.FileSystem

/-! A folder with the files in it, and the file system that a run in this folder finds: besides the folder
only what the root of every system holds. -/
namespace MiniJava

/-- Files by the names that lead to them from the folder. -/
structure Folder where
  files : List (List String × String)

namespace Folder
open FileSystem

def names (path : String) : List String := Path.names path

/-- Folders that stand in the root of every system. -/
def topFolders : List String := ["bin", "dev", "etc", "home", "lib", "opt", "proc", "root", "sbin", "sys",
  "tmp", "usr", "var"]

def outside : List (Place × Entry) :=
  topFolders.map (fun name => ([name], .node .folder)) ++
    Device.all.map fun d => (["dev", d.name], .node (.device d))

def place : Place := ["tmp", "work"]

/-- The files, and then the folders that are there because files are in them. -/
def inside (f : Folder) : List (Place × Entry) :=
  (f.files.zipIdx.map fun (x, id) => (place ++ x.1, .node (.file id))) ++ [(place, .node .folder)] ++
    f.files.flatMap fun x =>
      (List.range x.1.length).map fun n => (place ++ x.1.take n, .node .folder)

def system (f : Folder) : FileSystem where
  entries := outside ++ f.inside
  contents := f.files.zipIdx.map fun (x, id) => (id, x.2.toUTF8)
  current := place
  stdin := .empty

/-- The files that stand in the folder after a run. -/
def after (s : FileSystem) : Folder where
  files := s.entries.filterMap fun (p, e) => do
    let text ← String.fromUTF8? (s.content (← e.file?))
    if place.isPrefixOf p then some (p.drop place.length, text) else none

end Folder

end MiniJava
