/-! A table of names that holds each name once. -/
namespace MiniJava.Name

structure Table where
  names : List String

namespace Table

def empty : Table := ⟨[]⟩

def find? (t : Table) (name : String) : Option String := t.names.find? (· == name)

def insert (t : Table) (name : String) : Table :=
  if t.names.contains name then t else ⟨name :: t.names⟩

def size (t : Table) : Nat := t.names.length

def isEmpty (t : Table) : Bool := t.names.isEmpty

def ofList (names : List String) : Table := names.foldl insert empty

end Table

end MiniJava.Name
