import MiniJava.Codegen.Error
import MiniJava.IR.Type

/-! The table of methods of a class, indexed by slot. Classes that share a counter with others may
have slots with nothing in them. -/
namespace MiniJava

namespace VTable

structure Entry where
  ref : MethodRef
  name : Name
  /-- the class that declares the method -/
  owner : Name
  signature : IRType

def Entry.functionName (e : Entry) : String := s!"@{e.owner}.{e.name}"

def Entry.text (e : Entry) : String :=
  "\ti8* bitcast (" ++ e.signature.text ++ "* " ++ e.functionName ++ " to i8*)"

def slotText : Option Entry → String
  | some e => e.text
  | none => "\ti8* null"

end VTable

structure VTable where
  cls : Name
  slots : List (Option VTable.Entry)

namespace VTable

def size (v : VTable) : Nat := v.slots.length

def isEmpty (v : VTable) : Bool := v.slots.isEmpty

def globalName (v : VTable) : String := s!"@.{v.cls}_vtable"

def type (v : VTable) : IRType := .array v.size .bytes

def slotOf? (v : VTable) (name : Name) : Option Nat :=
  v.slots.findIdx? fun e => e.any (·.name == name)

/-- The slots that hold something. -/
def entries (v : VTable) : List (Nat × Entry) :=
  v.slots.zipIdx.filterMap fun (e, i) => e.map fun e => (i, e)

def text (v : VTable) : String :=
  let inside := if v.isEmpty then "" else "\n" ++ String.intercalate ",\n" (v.slots.map slotText) ++ "\n"
  s!"{v.globalName} = global " ++ v.type.text ++ " [" ++ inside ++ "]\n"

/-- The slot of a method and what stands there. -/
def entry (t : ClassTable) (r : MethodRef) : Except CodegenError (Nat × Entry) :=
  match t.method? r with
  | none => .error .dangling
  | some m =>
    match m.slot? with
    | none => .error (.missingSlot m.name)
    | some slot => .ok (slot, ⟨r, m.name, t.nameOf r.cls, m.signature⟩)

def entriesOf (t : ClassTable) : List MethodRef → Except CodegenError (List (Nat × Entry))
  | [] => .ok []
  | r :: rs => do
    let e ← entry t r
    let es ← entriesOf t rs
    return e :: es

/-- What a class inherits, then its own methods. -/
def refs (t : ClassTable) (c : ClassId) : List MethodRef :=
  (((t.get? c).map (·.inherited)).getD []).map (·.method) ++
    (List.range (t.methods c).length).map (MethodRef.mk c)

/-- Of several entries for one slot the last one counts. -/
def fill (es : List (Nat × Entry)) : List (Option Entry) :=
  let size := es.foldl (fun n e => max n (e.1 + 1)) 0
  (List.range size).map fun i => ((es.filter (·.1 == i)).getLast?).map (·.2)

/-- The main class has an empty table. -/
def build (t : ClassTable) (c : ClassId) : Except CodegenError VTable :=
  if t.isMain c then .ok ⟨t.nameOf c, []⟩
  else do
    let es ← entriesOf t (refs t c)
    return ⟨t.nameOf c, fill es⟩

end VTable

end MiniJava
