import MiniJava.Layout.Assign
import MiniJava.Layout.VTable

/-! Sizes of objects. An object is a header, which points to the table of methods, and the fields
of its class and all ancestors. A shared counter can place a field beyond the plain sum of sizes, so
what is asked for reaches to the end of the last field, and one spare header further. -/
namespace MiniJava

structure ClassLayout where
  cls : ClassId
  name : Name
  objectSize : Nat
  allocSize : Nat
  vtable : VTable

/-- The layout of every class, in the order of the class table. -/
abbrev Layout := List ClassLayout

namespace Layout

def headerSize : Nat := 8

def fieldSizes : List Field → Nat
  | [] => 0
  | f :: fs => f.ty.size + fieldSizes fs

/-- The end of the last field. -/
def regionEnd (stop : Nat) : List Field → Except CodegenError Nat
  | [] => .ok stop
  | f :: fs =>
    match f.offset with
    | none => .error (.missingFieldOffset f.name)
    | some offset => regionEnd (max stop (offset + f.ty.size)) fs

def ofClass (t : ClassTable) (c : ClassId) : Except CodegenError ClassLayout := do
  let fields := t.visibleFields c
  let objectSize := headerSize + fieldSizes fields
  let stop ← regionEnd 0 fields
  let vtable ← VTable.build t c
  return ⟨c, t.nameOf c, objectSize, max objectSize (headerSize + stop) + headerSize, vtable⟩

def ofClasses (t : ClassTable) : List ClassId → Except CodegenError Layout
  | [] => .ok []
  | c :: cs => do
    let l ← ofClass t c
    let ls ← ofClasses t cs
    return l :: ls

/-- The class table with offsets and slots, and the layout unless something is lacking. -/
def compute (s : Strategy) (t : ClassTable) : ClassTable × Except CodegenError Layout :=
  let t := assign s t
  (t, ofClasses t t.ids)

def vtablesText (l : Layout) : String := String.join (l.map fun c => c.vtable.text ++ "\n")

def fieldLine (owner : Name) (f : Field) : String :=
  s!"  field {owner}.{f.name}: " ++ f.ty.text ++ s!" at this + {headerSize + f.offset.getD 0}\n"

def slotLine : Nat × VTable.Entry → String
  | (slot, e) => s!"  slot {slot}: {e.owner}.{e.name}\n"

/-- Sizes, fields from the topmost ancestor down, and slots; nothing for the main class. -/
def describeClass (t : ClassTable) (l : ClassLayout) : String :=
  if t.isMain l.cls then ""
  else
    s!"class {l.name}: object size {l.objectSize}, allocation size {l.allocSize}\n" ++
      String.join ((t.chain l.cls).reverse.flatMap fun a =>
        (t.fields a).map (fieldLine (t.nameOf a))) ++
      String.join (l.vtable.entries.map slotLine)

def describe (l : Layout) (t : ClassTable) : String := String.join (l.map (describeClass t))

end Layout

end MiniJava
