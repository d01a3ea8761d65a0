import MiniJava.Codegen.Error
import MiniJava.IR.Instr

/-! Code under construction. A step returns the lines it adds, and keeps them when it fails; what it
hands on are the numbers of the next labels and temporary, and the block that is being filled. -/
namespace MiniJava.Codegen
open IR

/-- How many constructs of each kind the module has so far. -/
structure LabelCounters where
  ifs : Nat := 0
  loops : Nat := 0
  bounds : Nat := 0
  sizes : Nat := 0
  ands : Nat := 0
  deriving DecidableEq, Repr

structure Cursor where
  labels : LabelCounters
  temps : Nat := 0
  block : Label := .entry
  deriving DecidableEq, Repr

structure Emitted (α : Type) where
  result : Except CodegenError α
  code : List Line
  cursor : Cursor

def Gen (α : Type) : Type := Cursor → Emitted α

namespace Gen
variable {α β : Type}

def of (a : α) : Gen α := fun k => ⟨.ok a, [], k⟩

def andThen (x : Gen α) (f : α → Gen β) : Gen β := fun k =>
  let first := x k
  match first.result with
  | .error e => ⟨.error e, first.code, first.cursor⟩
  | .ok a =>
    let rest := f a first.cursor
    ⟨rest.result, first.code ++ rest.code, rest.cursor⟩

instance : Monad Gen where
  pure := of
  bind := andThen

end Gen

def fail {α : Type} (e : CodegenError) : Gen α := fun k => ⟨.error e, [], k⟩

def ofOption {α : Type} (e : CodegenError) : Option α → Gen α
  | some a => .of a
  | none => fail e

def emit (i : Instr) : Gen Unit := fun k => ⟨.ok (), [.instr i], k⟩

/-- Puts a value into the next temporary. -/
def emitValue (rhs : Rhs) : Gen Value := fun k =>
  ⟨.ok (.temp k.temps), [.instr (.set k.temps rhs)], { k with temps := k.temps + 1 }⟩

def startBlock (l : Label) : Gen Unit := fun k => ⟨.ok (), [.label l], { k with block := l }⟩

def currentBlock : Gen Label := fun k => ⟨.ok k.block, [], k⟩

def nextLabels (get : LabelCounters → Nat) (set : LabelCounters → LabelCounters) : Gen Nat := fun k =>
  ⟨.ok (get k.labels), [], { k with labels := set k.labels }⟩

def nextIf : Gen Nat := nextLabels (·.ifs) fun l => { l with ifs := l.ifs + 1 }

def nextLoop : Gen Nat := nextLabels (·.loops) fun l => { l with loops := l.loops + 1 }

def nextBounds : Gen Nat := nextLabels (·.bounds) fun l => { l with bounds := l.bounds + 1 }

def nextSize : Gen Nat := nextLabels (·.sizes) fun l => { l with sizes := l.sizes + 1 }

def nextAnd : Gen Nat := nextLabels (·.ands) fun l => { l with ands := l.ands + 1 }

end MiniJava.Codegen
