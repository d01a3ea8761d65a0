import Mathlib.Logic.Function.Basic
import MiniJava.IR.Prelude
import MiniJava.Proofs.IR.Blocks

/-!
# Running a function

What instructions do, as far as integers of one and of 32 bits need them: stack slots, arithmetic
without overflow, branches between blocks, and the call that prints a number. A function is run from
its first block, one instruction after the other. There is no next state where an instruction has no
meaning here, nor at a return.
-/
namespace MiniJava.IR

/-- A value of an integer type. -/
inductive Word where
  | i1 (bits : BitVec 1)
  | i32 (bits : BitVec 32)
  deriving DecidableEq

def Word.fits : Word → IRType → Bool
  | .i1 _, .i1 | .i32 _, .i32 => true
  | _, _ => false

/-- Results are taken modulo two to the number of bits. -/
def Arith.bits {w : Nat} : Arith → BitVec w → BitVec w → BitVec w
  | .add, a, b => a + b
  | .sub, a, b => a - b
  | .mul, a, b => a * b
  | .and, a, b => a &&& b
  | .xor, a, b => a ^^^ b

def Arith.words (op : Arith) : Word → Word → Option Word
  | .i1 a, .i1 b => some (.i1 (op.bits a b))
  | .i32 a, .i32 b => some (.i32 (op.bits a b))
  | _, _ => none

def Cond.bits {w : Nat} : Cond → BitVec w → BitVec w → Bool
  | .lt, a, b => a.slt b
  | .ge, a, b => b.sle a

def Cond.words (cond : Cond) : Word → Word → Option Word
  | .i1 a, .i1 b => some (.i1 (.ofBool (cond.bits a b)))
  | .i32 a, .i32 b => some (.i1 (.ofBool (cond.bits a b)))
  | _, _ => none

structure State where
  /-- the lines that come next -/
  rest : List Line
  block : Label
  /-- the block that was left for this one -/
  previous : Label
  temps : Nat → Option Word
  slots : String → Option Word
  output : List Int

namespace State

/-- An operand, at the type it is used with. -/
def operand (s : State) : IRType → Value → Option Word
  | ty, .temp n => (s.temps n).filter (·.fits ty)
  | .i1, .int v => some (.i1 (.ofInt 1 v))
  | .i32, .int v => some (.i32 (.ofInt 32 v))
  | .i1, .bool b => some (.i1 (.ofBool b))
  | _, _ => none

def content (s : State) (ty : IRType) : Value → Option Word
  | .slot x => (s.slots x).filter (·.fits ty)
  | _ => none

def value (s : State) : Rhs → Option Word
  | .load ty ptr => s.content ty ptr
  | .arith op ty a b => do
    let a ← s.operand ty a
    let b ← s.operand ty b
    op.words a b
  | .compare cond ty a b => do
    let a ← s.operand ty a
    let b ← s.operand ty b
    cond.words a b
  | .phi ty incoming => do
    let chosen ← incoming.find? fun (_, l) => l == s.previous
    s.operand ty chosen.1
  | .cast .. | .address .. | .call .. => none

theorem phi_same {s : State} {ty : IRType} {v : Value} {l : Label}
    {incoming : List (Value × Label)} (h : s.previous = l) :
    s.value (.phi ty ((v, l) :: incoming)) = s.operand ty v := by
  rw [State.value, List.find?_cons_of_pos (by rw [h]; exact beq_self_eq_true l)]
  rfl

theorem phi_other {s : State} {ty : IRType} {v : Value} {l : Label}
    {incoming : List (Value × Label)} (h : s.previous ≠ l) :
    s.value (.phi ty ((v, l) :: incoming)) = s.value (.phi ty incoming) := by
  rw [State.value, List.find?_cons_of_neg (by simpa using h.symm)]
  rfl

/-- The function ends here. -/
def Returned (s : State) : Prop := ∃ ty v rest, s.rest = .instr (.ret ty v) :: rest

end State

/-- A function, and what its slots hold before anything is stored in them. -/
structure Machine where
  code : List Line
  fresh : String → Word

namespace Machine

def start? (m : Machine) : Option State :=
  match m.code with
  | .label l :: rest => some ⟨rest, l, l, fun _ => none, fun _ => none, []⟩
  | _ => none

def goto (m : Machine) (s : State) (l : Label) : Option State :=
  (blockAt l m.code).map fun rest => { s with rest, block := l, previous := s.block }

def exec (m : Machine) (s : State) (rest : List Line) : Instr → Option State
  | .alloca (.slot x) ty =>
    some { s with rest, slots := Function.update s.slots x ((some (m.fresh x)).filter (·.fits ty)) }
  | .set n rhs => do
    let w ← s.value rhs
    return { s with rest, temps := Function.update s.temps n (some w) }
  | .store ty v (.slot x) => do
    let _ ← s.content ty (.slot x)
    let w ← s.operand ty v
    return { s with rest, slots := Function.update s.slots x (some w) }
  | .call _ (.global f) [(ty, v)] =>
    match s.operand ty v with
    | some (.i32 n) =>
      if f = Builtin.printInt.name then some { s with rest, output := s.output ++ [n.toInt] }
      else none
    | _ => none
  | .jump l => m.goto s l
  | .branch cond yes no =>
    match s.operand .i1 cond with
    | some (.i1 b) => m.goto s (if b = 1#1 then yes else no)
    | _ => none
  | _ => none

def step (m : Machine) (s : State) : Option State :=
  match s.rest with
  | .instr i :: rest => m.exec s rest i
  | _ => none

def run (m : Machine) : Nat → State → Option State
  | 0, s => some s
  | n + 1, s => (m.step s).bind (m.run n)

def Reaches (m : Machine) (s s' : State) : Prop := ∃ n, m.run n s = some s'

variable {m : Machine} {s s' f : State}

theorem run_add (m : Machine) (a b : Nat) (s : State) :
    m.run (a + b) s = (m.run a s).bind (m.run b) := by
  induction a generalizing s with
  | zero =>
    rw [Nat.zero_add]
    rfl
  | succ a ih =>
    rw [Nat.succ_add, run, run]
    cases m.step s with
    | none => rfl
    | some s' => exact ih s'

theorem step_of_returned (h : s.Returned) : m.step s = none := by
  obtain ⟨ty, v, rest, hrest⟩ := h
  rw [step, hrest]
  rfl

/-- Every state of a run that returns is on the way to the return. -/
theorem run_of_returned {n j : Nat} (hf : m.run n s = some f) (returned : f.Returned)
    (hj : m.run j s = some s') : ∃ r, n = j + r ∧ m.run r s' = some f := by
  by_cases within : j ≤ n
  · obtain ⟨r, rfl⟩ := Nat.exists_eq_add_of_le within
    rw [run_add, hj] at hf
    exact ⟨r, rfl, hf⟩
  · obtain ⟨r, rfl⟩ := Nat.exists_eq_add_of_lt (Nat.lt_of_not_le within)
    rw [Nat.add_assoc, run_add, hf, Option.bind_some, run, step_of_returned returned] at hj
    cases hj

/-- The function returns after a number of instructions. -/
def ReturnsIn (m : Machine) (n : Nat) (s : State) : Prop := ∃ f, m.run n s = some f ∧ f.Returned

theorem ReturnsIn.later {n : Nat} (h : m.ReturnsIn n s) (reaches : m.Reaches s s') :
    ∃ r ≤ n, m.ReturnsIn r s' := by
  obtain ⟨f, hf, returned⟩ := h
  obtain ⟨j, hj⟩ := reaches
  obtain ⟨r, rfl, hr⟩ := run_of_returned hf returned hj
  exact ⟨r, Nat.le_add_left r j, f, hr, returned⟩

theorem ReturnsIn.next {n : Nat} (h : m.ReturnsIn n s) (step : m.step s = some s') :
    ∃ r < n, m.ReturnsIn r s' := by
  obtain ⟨f, hf, returned⟩ := h
  have hj : m.run 1 s = some s' := by
    rw [run, step]
    rfl
  obtain ⟨r, rfl, hr⟩ := run_of_returned hf returned hj
  exact ⟨r, by omega, f, hr, returned⟩

theorem Reaches.refl (m : Machine) (s : State) : m.Reaches s s := ⟨0, rfl⟩

theorem Reaches.trans {t : State} (h : m.Reaches s s') (h' : m.Reaches s' t) : m.Reaches s t := by
  obtain ⟨a, ha⟩ := h
  obtain ⟨b, hb⟩ := h'
  refine ⟨a + b, ?_⟩
  rw [run_add, ha]
  exact hb

/-- A function returns in one state at most. -/
theorem Reaches.returned_unique {start : State} (h : m.Reaches start f) (returned : f.Returned)
    (h' : m.Reaches start s') (returned' : s'.Returned) : s' = f := by
  obtain ⟨n, hf⟩ := h
  obtain ⟨j, hj⟩ := h'
  obtain ⟨r, rfl, hr⟩ := run_of_returned hf returned hj
  cases r with
  | zero => exact Option.some.inj hr
  | succ r =>
    rw [run, step_of_returned returned'] at hr
    cases hr

theorem Reaches.of_step (h : m.step s = some s') : m.Reaches s s' := by
  refine ⟨1, ?_⟩
  rw [run, h]
  rfl

section Step
variable {rest : List Line}

theorem step_eq {i : Instr} (h : s.rest = .instr i :: rest) : m.step s = m.exec s rest i := by
  rw [step, h]

theorem step_alloca {x : String} {ty : IRType}
    (h : s.rest = .instr (.alloca (.slot x) ty) :: rest) :
    m.step s = some { s with
      rest, slots := Function.update s.slots x ((some (m.fresh x)).filter (·.fits ty)) } := by
  rw [step_eq h, exec]

theorem step_store {ty : IRType} {v : Value} {x : String} {old w : Word}
    (h : s.rest = .instr (.store ty v (.slot x)) :: rest) (hx : s.content ty (.slot x) = some old)
    (hw : s.operand ty v = some w) :
    m.step s = some { s with rest, slots := Function.update s.slots x (some w) } := by
  rw [step_eq h, exec, hx, hw]
  rfl

theorem step_print {ty : IRType} {v : Value} {n : BitVec 32}
    (h : s.rest = .instr (.call ty (.global Builtin.printInt.name) [(.i32, v)]) :: rest)
    (hv : s.operand .i32 v = some (.i32 n)) :
    m.step s = some { s with rest, output := s.output ++ [n.toInt] } := by
  rw [step_eq h]
  simp only [exec, hv, if_true]

theorem step_set {n : Nat} {rhs : Rhs} {w : Word} (h : s.rest = .instr (.set n rhs) :: rest)
    (hw : s.value rhs = some w) :
    m.step s = some { s with rest, temps := Function.update s.temps n (some w) } := by
  rw [step_eq h, exec, hw]
  rfl

theorem goto_eq {l : Label} (once : starts l m.code ≤ 1) (h : .label l :: rest <:+ m.code) :
    m.goto s l = some { s with rest, block := l, previous := s.block } := by
  rw [goto, blockAt_of_isSuffix once h]
  rfl

end Step

end Machine

/-- No block is started twice. -/
def Machine.Unambiguous (m : Machine) : Prop := ∀ l, starts l m.code ≤ 1

/-- The machine is in a block, and the given lines are all that is left of the function. -/
structure Stands (m : Machine) (b : Label) (lines : List Line) (s : State) : Prop where
  rest : s.rest = lines
  within : lines <:+ m.code
  block : s.block = b
  passed : starts b lines = 0

/-- Only temporaries from a number on are different. -/
structure Keeps (n : Nat) (s s' : State) : Prop where
  slots : s'.slots = s.slots
  output : s'.output = s.output
  temps : ∀ i < n, s'.temps i = s.temps i

theorem Keeps.refl (n : Nat) (s : State) : Keeps n s s := ⟨rfl, rfl, fun _ _ => rfl⟩

theorem Keeps.trans {n n' : Nat} {s s' s'' : State} (h : Keeps n s s') (h' : Keeps n' s' s'')
    (le : n ≤ n') : Keeps n s s'' := by
  refine ⟨h'.slots.trans h.slots, h'.output.trans h.output, fun i hi => ?_⟩
  rw [h'.temps i (Nat.lt_of_lt_of_le hi le), h.temps i hi]

/-- A value that was computed before a temporary. -/
def Value.Below (n : Nat) : Value → Prop
  | .temp i => i < n
  | _ => True

theorem Value.below_temp {i n : Nat} (h : i < n) : (Value.temp i).Below n := h

theorem Value.Below.mono {n n' : Nat} {v : Value} (h : v.Below n) (le : n ≤ n') : v.Below n' := by
  cases v with
  | temp i => exact Nat.lt_of_lt_of_le h le
  | _ => trivial

theorem Keeps.operand {n : Nat} {s s' : State} (h : Keeps n s s') {v : Value} (below : v.Below n)
    (ty : IRType) : s'.operand ty v = s.operand ty v := by
  cases v with
  | temp i => simp only [State.operand, h.temps i below]
  | _ => cases ty <;> rfl

namespace Stands
variable {m : Machine} {b : Label} {rest : List Line} {s : State}

/-- The state after an instruction that goes on to the next line. -/
theorem next {i : Instr} (h : Stands m b (.instr i :: rest) s) {s' : State}
    (hrest : s'.rest = rest) (hblock : s'.block = s.block) : Stands m b rest s' where
  rest := hrest
  within := (List.suffix_cons _ _).trans h.within
  block := hblock.trans h.block
  passed := h.passed

theorem emitValue {n : Nat} {rhs : Rhs} {w : Word}
    (h : Stands m b (.instr (.set n rhs) :: rest) s) (hw : s.value rhs = some w) :
    ∃ s', m.Reaches s s' ∧ Stands m b rest s' ∧ Keeps n s s' ∧
      ∀ ty, w.fits ty = true → s'.operand ty (.temp n) = some w := by
  refine ⟨_, .of_step (Machine.step_set h.rest hw), h.next rfl rfl, ⟨rfl, rfl, ?_⟩, ?_⟩
  · intro i hi
    exact Function.update_of_ne (Nat.ne_of_lt hi) _ _
  · intro ty fits
    simp only [State.operand, Function.update_self, Option.filter_some, fits, if_true]

theorem alloca {x : String} {ty : IRType}
    (h : Stands m b (.instr (.alloca (.slot x) ty) :: rest) s) :
    ∃ s', m.step s = some s' ∧ Stands m b rest s' ∧ s'.output = s.output ∧
      s'.slots = Function.update s.slots x ((some (m.fresh x)).filter (·.fits ty)) :=
  ⟨_, Machine.step_alloca h.rest, h.next rfl rfl, rfl, rfl⟩

section Goto
variable {l : Label} {lines : List Line} (once : m.Unambiguous)
include once

/-- A block is entered from another one, and nothing else changes. -/
theorem goto (target : .label l :: lines <:+ m.code) (s : State) :
    ∃ s', m.goto s l = some s' ∧ Stands m l lines s' ∧ s'.previous = s.block ∧
      ∀ n, Keeps n s s' := by
  refine ⟨_, Machine.goto_eq (once l) target, ⟨rfl, ?_, rfl, ?_⟩, rfl, fun n => ⟨rfl, rfl, ?_⟩⟩
  · exact (List.suffix_cons _ _).trans target
  · obtain ⟨before, hcode⟩ := target
    have := once l
    rw [← hcode, starts_append, starts, if_pos rfl] at this
    omega
  · exact fun _ _ => rfl

theorem jump (h : Stands m b (.instr (.jump l) :: rest) s)
    (target : .label l :: lines <:+ m.code) :
    ∃ s', m.step s = some s' ∧ Stands m l lines s' ∧ s'.previous = b ∧ ∀ n, Keeps n s s' := by
  rw [Machine.step_eq h.rest, Machine.exec, ← h.block]
  exact goto once target s

theorem branch {v : Value} {yes no : Label} {p : Bool}
    (h : Stands m b (.instr (.branch v yes no) :: rest) s)
    (hv : s.operand .i1 v = some (.i1 (.ofBool p)))
    (target : .label (if p then yes else no) :: lines <:+ m.code) :
    ∃ s', m.step s = some s' ∧ Stands m (if p then yes else no) lines s' ∧ s'.previous = b ∧
      ∀ n, Keeps n s s' := by
  have taken : (if BitVec.ofBool p = 1#1 then yes else no) = if p then yes else no := by
    cases p <;> rfl
  rw [Machine.step_eq h.rest, ← h.block]
  simp only [Machine.exec, hv, taken]
  exact goto once target s

end Goto

end Stands

end MiniJava.IR
