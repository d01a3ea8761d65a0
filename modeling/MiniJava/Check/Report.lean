import MiniJava.Check.Error

/-! Findings in the order they are made. A report takes no more than its limit, the rest is dropped;
a computation may also just collect what it finds, and leave the limit to whoever takes it up. -/
namespace MiniJava

structure Finding where
  line : Nat
  error : SemanticError
  deriving DecidableEq, Repr

structure Report where
  limit : Option Nat
  findings : List Finding := []

namespace Report

def full (r : Report) : Bool :=
  match r.limit with
  | none => false
  | some n => n ≤ r.findings.length

def add (r : Report) (f : Finding) : Report :=
  if r.full then r else { r with findings := r.findings ++ [f] }

def addAll (r : Report) (fs : List Finding) : Report := fs.foldl add r

def isClean (r : Report) : Bool := r.findings.isEmpty

end Report

/-- A value, and what was found on the way to it. -/
structure Found (α : Type) where
  value : α
  findings : List Finding

namespace Found
variable {α β : Type}

def of (a : α) : Found α := ⟨a, []⟩

def andThen (x : Found α) (f : α → Found β) : Found β :=
  ⟨(f x.value).value, x.findings ++ (f x.value).findings⟩

instance : Monad Found where
  pure := of
  bind := andThen

end Found

def report (line : Nat) (error : SemanticError) : Found Unit := ⟨(), [⟨line, error⟩]⟩

end MiniJava
