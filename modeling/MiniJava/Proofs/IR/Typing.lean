import Mathlib.Data.List.Nodup
import MiniJava.IR.Module

/-!
# Types of instructions

Every operand is written with a type, and what it names has one: a global, a parameter, a stack slot
or a temporary. A function is typed if no name has two types and every instruction uses its operands
at the types that they have.
-/
namespace MiniJava.IR

/-- Operands that are names, with their types. -/
abbrev Names := List (Value × IRType)

/-- Numbers are written where 32 bits or one bit are asked for, truth values as one bit. -/
inductive Value.HasType (names : Names) : Value → IRType → Prop
  | named {v : Value} {ty : IRType} : (v, ty) ∈ names → HasType names v ty
  | int (n : Int) : HasType names (.int n) .i32
  | bit {n : Int} : n = 0 ∨ n = 1 → HasType names (.int n) .i1
  | bool (b : Bool) : HasType names (.bool b) .i1

/-- Every argument has the type that it is written with. -/
def ArgsTyped (names : Names) (args : List (IRType × Value)) : Prop :=
  ∀ a ∈ args, a.2.HasType names a.1

/-- A function is called with the types it is declared with. -/
def CallTyped (names : Names) (ty : IRType) (callee : Value) (args : List (IRType × Value)) :
    Prop :=
  callee.HasType names (.ptr (.fn ty (args.map Prod.fst))) ∧ ArgsTyped names args

def bits? : IRType → Option Nat
  | .i1 => some 1
  | .i8 => some 8
  | .i32 => some 32
  | _ => none

/-- What lies inside a value behind some indices. -/
def inside? : IRType → List Value → Option IRType
  | ty, [] => some ty
  | .array _ ty, _ :: path => inside? ty path
  | _, _ :: _ => none

/-- A truth value is widened to a byte, a byte is cut down to a truth value, and a `bitcast` is
between pointers. -/
def Cast.Between : Cast → IRType → IRType → Prop
  | .bitcast, source, target => (∃ ty, source = .ptr ty) ∧ ∃ ty, target = .ptr ty
  | .trunc, source, target => source = .i8 ∧ target = .i1
  | .zext, source, target => source = .i1 ∧ target = .i8

namespace Rhs

def type? : Rhs → Option IRType
  | .load ty _ | .arith _ ty _ _ | .call ty _ _ | .phi ty _ => some ty
  | .compare .. => some .i1
  | .cast _ _ _ target => some target
  -- the first index counts whole values
  | .address ty _ path => (inside? ty path.tail).map .ptr

def Typed (names : Names) : Rhs → Prop
  | .load ty ptr => ptr.HasType names (.ptr ty)
  | .arith _ ty a b | .compare _ ty a b =>
    (∃ n, bits? ty = some n) ∧ a.HasType names ty ∧ b.HasType names ty
  | .cast op source v target => op.Between source target ∧ v.HasType names source
  | .address ty base path => base.HasType names (.ptr ty) ∧ ∀ i ∈ path, i.HasType names .i32
  | .call ty callee args => CallTyped names ty callee args
  -- only truth values come together
  | .phi ty incoming => ty = .i1 ∧ ∀ p ∈ incoming, p.1.HasType names ty

end Rhs

namespace Instr

/-- The name that an instruction introduces. -/
def declares : Instr → Names
  | .alloca slot ty => [(slot, .ptr ty)]
  | .set n rhs => (rhs.type?.map fun ty => (.temp n, ty)).toList
  | _ => []

def Typed (names : Names) : Instr → Prop
  | .alloca slot ty => slot.HasType names (.ptr ty)
  | .set n rhs =>
    rhs.Typed names ∧ ∃ ty, rhs.type? = some ty ∧ ty ≠ .void ∧ (Value.temp n).HasType names ty
  | .store ty v ptr => v.HasType names ty ∧ ptr.HasType names (.ptr ty)
  -- what is called is written with the type that it returns or with its own type
  | .call ty callee args =>
    ∃ result, (ty = result ∨ ty = .fn result (args.map Prod.fst)) ∧
      CallTyped names result callee args
  | .branch cond _ _ => cond.HasType names .i1
  | .ret ty v => v.HasType names ty
  | .jump _ | .unreachable => True

end Instr

def Line.declares : Line → Names
  | .label _ => []
  | .instr i => i.declares

def declared (code : List Line) : Names := code.flatMap Line.declares

namespace Header

/-- What a function finds when it is entered. -/
def names (h : Header) (globals : Names) : Names := globals ++ h.params.map Prod.swap

end Header

structure Function.Typed (globals : Names) (f : Function) : Prop where
  distinct : ((f.header.names globals ++ declared f.body).map Prod.fst).Nodup
  instrs : ∀ i, .instr i ∈ f.body → i.Typed (f.header.names globals ++ declared f.body)
  returns : ∀ ty v, .instr (.ret ty v) ∈ f.body → ty = f.header.result

section Mono
variable {names names' : Names} (sub : names ⊆ names')
include sub

theorem Value.HasType.mono {v : Value} {ty : IRType} (h : v.HasType names ty) :
    v.HasType names' ty := by
  cases h with
  | named mem => exact .named (sub mem)
  | int n => exact .int n
  | bit h => exact .bit h
  | bool b => exact .bool b

theorem ArgsTyped.mono {args : List (IRType × Value)} (h : ArgsTyped names args) :
    ArgsTyped names' args := fun a ha => (h a ha).mono sub

theorem CallTyped.mono {ty : IRType} {callee : Value} {args : List (IRType × Value)}
    (h : CallTyped names ty callee args) : CallTyped names' ty callee args :=
  ⟨h.1.mono sub, h.2.mono sub⟩

theorem Rhs.Typed.mono {rhs : Rhs} (h : rhs.Typed names) : rhs.Typed names' := by
  cases rhs with
  | load ty ptr => exact Value.HasType.mono sub h
  | arith op ty a b => exact ⟨h.1, h.2.1.mono sub, h.2.2.mono sub⟩
  | compare cond ty a b => exact ⟨h.1, h.2.1.mono sub, h.2.2.mono sub⟩
  | cast op source v target => exact ⟨h.1, h.2.mono sub⟩
  | address ty base path => exact ⟨h.1.mono sub, fun i hi => (h.2 i hi).mono sub⟩
  | call ty callee args => exact CallTyped.mono sub h
  | phi ty incoming => exact ⟨h.1, fun p hp => (h.2 p hp).mono sub⟩

theorem Instr.Typed.mono {i : Instr} (h : i.Typed names) : i.Typed names' := by
  cases i with
  | alloca slot ty => exact Value.HasType.mono sub h
  | set n rhs =>
    obtain ⟨typed, ty, hty, nonempty, named⟩ := h
    exact ⟨typed.mono sub, ty, hty, nonempty, named.mono sub⟩
  | store ty v ptr => exact ⟨h.1.mono sub, h.2.mono sub⟩
  | call ty callee args =>
    obtain ⟨result, written, typed⟩ := h
    exact ⟨result, written, typed.mono sub⟩
  | branch cond yes no => exact Value.HasType.mono sub h
  | ret ty v => exact Value.HasType.mono sub h
  | jump l => trivial
  | «unreachable» => trivial

end Mono

/-- Every instruction of some lines is typed. -/
def LinesTyped (names : Names) (code : List Line) : Prop :=
  ∀ i, .instr i ∈ code → i.Typed names

namespace LinesTyped
variable {names : Names} {code code' : List Line}

theorem nil : LinesTyped names [] := fun i hi => (by cases hi)

theorem instr {i : Instr} (hi : i.Typed names) (h : LinesTyped names code) :
    LinesTyped names (.instr i :: code) := by
  intro j hj
  rcases List.mem_cons.mp hj with same | hj
  · rw [Line.instr.inj same]
    exact hi
  · exact h j hj

theorem label (l : Label) (h : LinesTyped names code) : LinesTyped names (.label l :: code) := by
  intro i hi
  rcases List.mem_cons.mp hi with other | hi
  · cases other
  · exact h i hi

theorem append (h : LinesTyped names code) (h' : LinesTyped names code') :
    LinesTyped names (code ++ code') :=
  fun i hi => (List.mem_append.mp hi).elim (h i) (h' i)

end LinesTyped

theorem declared_append (code code' : List Line) :
    declared (code ++ code') = declared code ++ declared code' := List.flatMap_append

theorem declared_cons (line : Line) (code : List Line) :
    declared (line :: code) = line.declares ++ declared code := List.flatMap_cons

/-- What a function of the prelude takes and returns. Of `printf` that is left open. -/
def Builtin.type? : Builtin → Option IRType
  | .calloc => some (.fn .bytes [.i32, .i32])
  | .exit | .printInt => some (.fn .void [.i32])
  | .outOfBounds | .negativeSize => some (.fn .void [])
  | .printf => none

def builtins : Names :=
  Builtin.all.filterMap fun b => b.type?.map fun ty => (.global b.name, .ptr ty)

def tables (l : Layout) : Names :=
  l.map fun c => (.global s!".{c.name}_vtable", .ptr c.vtable.type)

def globals (l : Layout) : Names := builtins ++ tables l

theorem mem_globals {l : Layout} {b : Builtin} {ty : IRType} (h : b.type? = some ty) :
    (.global b.name, .ptr ty) ∈ globals l := by
  refine List.mem_append_left _ (List.mem_filterMap.mpr ⟨b, ?_, by rw [h]; rfl⟩)
  cases b <;> simp [Builtin.all]

theorem mem_globals_of_mem {l : Layout} {c : ClassLayout} (h : c ∈ l) :
    (.global s!".{c.name}_vtable", .ptr c.vtable.type) ∈ globals l :=
  List.mem_append_right _ (List.mem_map_of_mem (f := fun c : ClassLayout =>
    (Value.global s!".{c.name}_vtable", IRType.ptr c.vtable.type)) h)

theorem global_of_mem {l : Layout} {x : Value × IRType} (h : x ∈ globals l) :
    ∃ n, x.1 = .global n := by
  rcases List.mem_append.mp h with h | h
  · obtain ⟨b, _, h⟩ := List.mem_filterMap.mp h
    obtain ⟨ty, _, rfl⟩ := Option.map_eq_some_iff.mp h
    exact ⟨_, rfl⟩
  · obtain ⟨c, _, rfl⟩ := List.mem_map.mp h
    exact ⟨_, rfl⟩

theorem tableName_injective {a b : Name} (h : s!".{a}_vtable" = s!".{b}_vtable") : a = b :=
  (String.append_right_inj _).mp ((String.append_left_inj _).mp h)

/-- The name of no function begins with a dot. -/
theorem builtin_ne_tableName (b : Builtin) (a : Name) : b.name ≠ s!".{a}_vtable" := by
  intro same
  have first := congrArg (fun s => s.toList.head?) same
  have dot : (toString ".").toList.head? = some '.' := rfl
  cases b <;> simp [Builtin.name, dot] at first

/-- No two globals have one name. -/
theorem globals_nodup {l : Layout} (classes : (l.map (·.name)).Nodup) :
    ((globals l).map Prod.fst).Nodup := by
  rw [globals, List.map_append]
  refine List.nodup_append.mpr ⟨by decide, ?_, ?_⟩
  · have keys : (tables l).map Prod.fst =
        (l.map (·.name)).map fun n => .global s!".{n}_vtable" := by
      rw [tables, List.map_map, List.map_map]
      rfl
    rw [keys]
    exact classes.map fun _ _ same => tableName_injective (Value.global.inj same)
  · intro v hv w hw same
    obtain ⟨x, hx, rfl⟩ := List.mem_map.mp hv
    obtain ⟨b, _, hb⟩ := List.mem_filterMap.mp hx
    obtain ⟨ty, _, rfl⟩ := Option.map_eq_some_iff.mp hb
    obtain ⟨y, hy, rfl⟩ := List.mem_map.mp hw
    obtain ⟨c, _, rfl⟩ := List.mem_map.mp hy
    exact builtin_ne_tableName b c.name (Value.global.inj same)

end MiniJava.IR
