import MiniJava.IR.Type

/-! Field offsets and slots in the tables of methods, handed out by counters in the order of
declaration. All classes of one tree may draw from a counter that the topmost class owns, or each
class may start where its parent has ended. An overriding method keeps the slot it overrides. -/
namespace MiniJava.Layout

inductive Strategy where
  | sharedRootCounter
  | parentPrefix
  deriving DecidableEq, Repr

def Strategy.all : List Strategy := [.sharedRootCounter, .parentPrefix]

def Strategy.name : Strategy → String
  | .sharedRootCounter => "shared root counter"
  | .parentPrefix => "parent prefix"

structure Counters where
  field : Nat := 0
  slot : Nat := 0
  deriving DecidableEq, Repr, Inhabited

/-- Gives each field the next free offset; returns the first offset after them. -/
def placeFields (offset : Nat) : List Field → List Field × Nat
  | [] => ([], offset)
  | f :: fs =>
    let (fs, stop) := placeFields (offset + f.ty.size) fs
    ({ f with offset := some offset } :: fs, stop)

/-- The slot of the method that a method of this name overrides. -/
def overridden? (t : ClassTable) (parent : Option ClassId) (name : Name) : Option Nat := do
  let p ← parent
  let r ← t.findMethod? p name
  let m ← t.method? r
  m.slotOffset

def placeMethods (t : ClassTable) (parent : Option ClassId) (slot : Nat) :
    List Method → List Method × Nat
  | [] => ([], slot)
  | m :: ms =>
    match overridden? t parent m.name with
    | some s =>
      let (ms, stop) := placeMethods t parent slot ms
      ({ m with slotOffset := some s } :: ms, stop)
    | none =>
      let (ms, stop) := placeMethods t parent (slot + Method.slotSize) ms
      ({ m with slotOffset := some slot } :: ms, stop)

structure State where
  table : ClassTable
  counters : Array Counters

/-- The class whose counters a class goes on from. -/
def source (s : Strategy) (t : ClassTable) (c : ClassId) : ClassId :=
  match s with
  | .sharedRootCounter => t.root c
  | .parentPrefix => (t.parent? c).getD c

/-- The class under which the counters are kept afterwards. -/
def keeper (s : Strategy) (t : ClassTable) (c : ClassId) : ClassId :=
  match s with
  | .sharedRootCounter => t.root c
  | .parentPrefix => c

def assignClass (s : Strategy) (st : State) (c : ClassId) : State :=
  if st.table.isMain c then st
  else
    let t := st.table
    let start := (st.counters[source s t c]?).getD {}
    let (fields, field) := placeFields start.field (t.fields c)
    let (methods, slot) := placeMethods t (t.parent? c) start.slot (t.methods c)
    ⟨t.modify c fun k => { k with fields, methods },
      st.counters.setIfInBounds (keeper s t c) ⟨field, slot⟩⟩

def assign (s : Strategy) (t : ClassTable) : ClassTable :=
  (t.ids.foldl (assignClass s) ⟨t, Array.replicate t.size {}⟩).table

end MiniJava.Layout
