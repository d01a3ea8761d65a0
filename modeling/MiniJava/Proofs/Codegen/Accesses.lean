import MiniJava.Proofs.Codegen.Checked
import MiniJava.Proofs.IR.Provenance
import MiniJava.Proofs.Layout.Objects

/-!
# What generated code touches of its object

The code of a body is followed step by step, inside a body of which it is a part: what it reads or
writes through pointers into the object is allowed, and of the operand that a step returns it is
known whether it is made from `this`. Only `this` itself is ever handed on; the pointers to a field
and to the header are used where they are made.
-/
namespace MiniJava.Codegen

open IR
open Check (Scope)
open Typing (Denotes HasType NoteFits ExprRecorded StmtRecorded BodyRecorded StmtTyped BodyTyped)

/-- Wherever the pointer may lead inside the object, a value of the type may be used there. -/
def Admits (body : List Line) (allowed : IRType → Int → Prop) (ty : IRType) (ptr : Value) : Prop :=
  ∀ o, Points body ptr o → allowed ty o

/-- An instruction touches only what is allowed. -/
def Respects (body : List Line) (allowed : IRType → Int → Prop) (i : Instr) : Prop :=
  ∀ ty ptr, i.access? = some (ty, ptr) → Admits body allowed ty ptr

/-- Where the code of a step is part of a body, it touches only what is allowed, and something holds
of its result. -/
def Stays {α : Type} (body : List Line) (allowed : IRType → Int → Prop) (x : Gen α)
    (post : α → Prop) : Prop :=
  ∀ k, (x k).code ⊆ body →
    (∀ i, .instr i ∈ (x k).code → Respects body allowed i) ∧
      ∀ a, (x k).result = .ok a → post a

section Stays
variable {α β : Type} {body : List Line} {allowed : IRType → Int → Prop}

namespace Stays
variable {post post' : α → Prop}

/-- A step that emits nothing touches nothing. -/
theorem of_silent {x : Gen α} (silent : ∀ k, (x k).code = [])
    (h : ∀ k a, (x k).result = .ok a → post a) : Stays body allowed x post := by
  refine fun k _ => ⟨fun i hi => ?_, h k⟩
  rw [silent] at hi
  cases hi

theorem of {a : α} (h : post a) : Stays body allowed (Gen.of a) post :=
  of_silent (fun _ => rfl) fun _ _ same => Except.ok.inj same ▸ h

theorem fail (e : CodegenError) : Stays body allowed (fail e : Gen α) post :=
  of_silent (fun _ => rfl) nofun

theorem imp {x : Gen α} (h : Stays body allowed x post) (himp : ∀ a, post a → post' a) :
    Stays body allowed x post' :=
  fun k sub => ⟨(h k sub).1, fun a ha => himp a ((h k sub).2 a ha)⟩

theorem bind {x : Gen α} {f : α → Gen β} {post' : β → Prop} (hx : Stays body allowed x post)
    (hf : ∀ a, post a → Stays body allowed (f a) post') : Stays body allowed (x >>= f) post' := by
  intro k sub
  change (Gen.andThen x f k).code ⊆ body at sub
  change (∀ i, .instr i ∈ (Gen.andThen x f k).code → _) ∧
    ∀ b, (Gen.andThen x f k).result = .ok b → post' b
  cases ha : (x k).result with
  | error e =>
    simp only [Gen.andThen, ha] at sub ⊢
    refine ⟨(hx k sub).1, fun b hb => ?_⟩
    cases hb
  | ok a =>
    simp only [Gen.andThen, ha] at sub ⊢
    obtain ⟨sub, sub'⟩ := List.append_subset.mp sub
    obtain ⟨first, value⟩ := hx k sub
    obtain ⟨rest, value'⟩ := hf a (value a ha) _ sub'
    exact ⟨fun i hi => (List.mem_append.mp hi).elim (first i) (rest i), value'⟩

theorem ite {p : Prop} [Decidable p] {x y : Gen α} (hx : Stays body allowed x post)
    (hy : Stays body allowed y post) : Stays body allowed (if p then x else y) post := by
  split
  · exact hx
  · exact hy

theorem ofOption (e : CodegenError) (o : Option α) :
    Stays body allowed (ofOption e o) fun a => o = some a := by
  cases o with
  | none => exact .fail e
  | some a => exact .of rfl

theorem startBlock (l : Label) : Stays body allowed (startBlock l) fun _ => True := by
  refine fun k _ => ⟨fun i hi => ?_, fun _ _ => trivial⟩
  cases List.mem_singleton.mp hi

theorem currentBlock : Stays body allowed currentBlock fun _ => True :=
  of_silent (fun _ => rfl) fun _ _ _ => trivial

theorem nextLabels (get : LabelCounters → Nat) (set : LabelCounters → LabelCounters) :
    Stays body allowed (nextLabels get set) fun _ => True :=
  of_silent (fun _ => rfl) fun _ _ _ => trivial

theorem emit {i : Instr} (h : Respects body allowed i) :
    Stays body allowed (emit i) fun _ => True := by
  refine fun k _ => ⟨fun j hj => ?_, fun _ _ => trivial⟩
  obtain rfl := Line.instr.inj (List.mem_singleton.mp hj)
  exact h

theorem emitValue {rhs : Rhs} (h : ∀ n, Respects body allowed (.set n rhs)) :
    Stays body allowed (emitValue rhs) fun v => ∃ n, v = .temp n ∧ .instr (.set n rhs) ∈ body := by
  refine fun k sub => ⟨fun j hj => ?_, fun v hv => ⟨k.temps, ?_, sub List.mem_cons_self⟩⟩
  · obtain rfl := Line.instr.inj (List.mem_singleton.mp hj)
    exact h _
  · exact (Except.ok.inj hv).symm

end Stays

theorem respects_of_quiet {i : Instr} (quiet : i.access? = none) : Respects body allowed i := by
  intro ty ptr access
  cases quiet.symm.trans access

theorem respects_of_access {i : Instr} {ty : IRType} {ptr : Value}
    (access : i.access? = some (ty, ptr)) (h : Admits body allowed ty ptr) :
    Respects body allowed i := by
  intro ty' ptr' access'
  obtain ⟨rfl, rfl⟩ := Prod.mk.inj (Option.some.inj (access.symm.trans access'))
  exact h

/-- Memory outside of the object may be used at will. -/
theorem admits_of_elsewhere {ptr : Value} (h : Elsewhere body ptr) (ty : IRType) :
    Admits body allowed ty ptr := fun o ho => absurd ho (h o)

theorem elsewhere_slot (c : Env) (x : Local) : Elsewhere body (c.slot x) :=
  elsewhere_of_ne nofun nofun

theorem Stays.store {ty : IRType} {v ptr : Value} (h : Admits body allowed ty ptr) :
    Stays body allowed (Codegen.emit (.store ty v ptr)) fun _ => True :=
  .emit (respects_of_access rfl h)

variable (once : (temporaries body).Nodup)
include once

/-- A value that is not made from `this`. -/
theorem Stays.value {rhs : Rhs} (h : ∀ n, Respects body allowed (.set n rhs))
    (leads : ∀ o, ¬ rhs.Leads body o) :
    Stays body allowed (Codegen.emitValue rhs) (Elsewhere body) := by
  refine (Stays.emitValue h).imp ?_
  rintro _ ⟨n, rfl, set⟩ o points
  exact leads o (points.leads once set)

theorem Stays.load {ty : IRType} {ptr : Value} (h : Admits body allowed ty ptr) :
    Stays body allowed (Codegen.emitValue (.load ty ptr)) (Elsewhere body) :=
  .value once (fun _ => respects_of_access rfl h) fun _ leads => leads

/-- What is neither read from memory nor made from a pointer. -/
theorem Stays.quiet {rhs : Rhs} (quiet : ∀ n, (Instr.set n rhs).access? = none)
    (leads : ∀ o, ¬ rhs.Leads body o) :
    Stays body allowed (Codegen.emitValue rhs) (Elsewhere body) :=
  .value once (fun n => respects_of_quiet (quiet n)) leads

theorem Stays.arith {op : Arith} {ty : IRType} {v w : Value} :
    Stays body allowed (Codegen.emitValue (.arith op ty v w)) (Elsewhere body) :=
  .quiet once (fun _ => rfl) fun _ leads => leads

theorem Stays.compare {cond : Cond} {ty : IRType} {v w : Value} :
    Stays body allowed (Codegen.emitValue (.compare cond ty v w)) (Elsewhere body) :=
  .quiet once (fun _ => rfl) fun _ leads => leads

theorem Stays.call {ty : IRType} {callee : Value} {args : List (IRType × Value)} :
    Stays body allowed (Codegen.emitValue (.call ty callee args)) (Elsewhere body) :=
  .quiet once (fun _ => rfl) fun _ leads => leads

theorem Stays.cast {op : Cast} {source target : IRType} {v : Value} (hv : Elsewhere body v) :
    Stays body allowed (Codegen.emitValue (.cast op source v target)) (Elsewhere body) :=
  .quiet once (fun _ => rfl) hv

theorem Stays.address {ty : IRType} {v : Value} {path : List Value} (hv : Elsewhere body v) :
    Stays body allowed (Codegen.emitValue (.address ty v path)) (Elsewhere body) :=
  .quiet once (fun _ => rfl) fun _ ⟨a, _, points, _⟩ => hv a points

section Memory
variable (c : Env)

/-- The places of a field that is referred to are allowed for its values. -/
def VarAllowed (c : Env) (allowed : IRType → Int → Prop) : VarRef → Prop
  | .loc _ => True
  | .field r => ∀ f start, c.table.field? r = some f → f.start? = some start →
      allowed f.ty.ir start

omit once in
theorem varTy_stays (v : VarRef) : Stays body allowed (varTy c v) fun _ => True := by
  cases v with
  | loc i => exact (Stays.ofOption _ _).imp fun _ _ => trivial
  | field r => exact (Stays.ofOption _ _).imp fun _ _ => trivial

/-- The pointer to a field leads to where the field begins, and nowhere else. -/
theorem fieldPointer_stays (r : FieldRef) :
    Stays body allowed (varPointer c (.field r)) fun v =>
      ∃ f start, c.table.field? r = some f ∧ f.start? = some start ∧
        ∀ o, Points body v o → o = start := by
  refine (Stays.ofOption _ _).bind fun f hf => (Stays.ofOption _ _).bind fun offset ho => ?_
  refine (Stays.emitValue fun _ => respects_of_quiet rfl).bind ?_
  rintro _ ⟨n, rfl, address⟩
  refine (Stays.emitValue fun _ => respects_of_quiet rfl).imp ?_
  rintro _ ⟨m, rfl, cast⟩
  refine ⟨f, Layout.headerSize + offset, hf, by rw [Field.start?, ho]; rfl, fun o points => ?_⟩
  have points : Points body (.temp n) o := points.leads once cast
  obtain ⟨a, b, base, stride, rfl⟩ := points.leads once address
  obtain rfl := points_this_iff.mp base
  have stride : b = Layout.headerSize + offset := stride
  rw [stride, Int.zero_add, Int.natCast_add]

/-- A variable is used at its type where it is kept. -/
theorem var_stays {v : VarRef} (h : VarAllowed c allowed v) {post : α → Prop}
    {f : Ty → Value → Gen α}
    (hf : ∀ ty ptr, Admits body allowed ty.ir ptr → Stays body allowed (f ty ptr) post) :
    Stays body allowed (do
      let ty ← varTy c v
      let ptr ← varPointer c v
      f ty ptr) post := by
  cases v with
  | loc i =>
    refine (Stays.ofOption _ _).bind fun ty _ => (Stays.ofOption _ _).bind fun ptr hptr => ?_
    obtain ⟨x, _, rfl⟩ := Option.map_eq_some_iff.mp hptr
    exact hf ty _ (admits_of_elsewhere (elsewhere_slot c x) _)
  | field r =>
    refine (Stays.ofOption _ _).bind fun ty hty => (fieldPointer_stays once c r).bind ?_
    rintro ptr ⟨g, start, hg, hstart, place⟩
    obtain ⟨g', hg', rfl⟩ := Option.map_eq_some_iff.mp hty
    obtain rfl := Option.some.inj (hg.symm.trans hg')
    refine hf _ ptr fun o points => ?_
    rw [place o points]
    exact h g start hg hstart

theorem loadVar_stays {v : VarRef} (h : VarAllowed c allowed v) :
    Stays body allowed (loadVar c v) (Elsewhere body) :=
  var_stays once c h fun _ _ admits => .load once admits

theorem storeVar_stays {v : VarRef} (h : VarAllowed c allowed v) (value : Value) :
    Stays body allowed (storeVar c v value) fun _ => True :=
  var_stays once c h fun _ _ admits => .store admits

end Memory

theorem calloc_stays (bytes : Value) : Stays body allowed (calloc bytes) (Elsewhere body) :=
  .call once

theorem newObject_stays (l : ClassLayout) :
    Stays body allowed (newObject l) (Elsewhere body) := by
  refine (calloc_stays once _).bind fun object hobject => ?_
  refine (Stays.cast once hobject).bind fun header hheader => ?_
  have table : Elsewhere body (.global s!".{l.name}_vtable") := elsewhere_of_ne nofun nofun
  refine (Stays.address once table).bind fun first _ => ?_
  exact (Stays.store (admits_of_elsewhere hheader _)).bind fun _ _ => .of hobject

omit once in
theorem trap_stays (label : Label) (b : Builtin) :
    Stays body allowed (trap label b) fun _ => True :=
  (Stays.startBlock _).bind fun _ _ => (Stays.emit (respects_of_quiet rfl)).bind fun _ _ =>
    .emit (respects_of_quiet rfl)

/-- Of the values that are computed on the way only the memory that was asked for is handed on. -/
theorem newArray_stays (ty : Ty) (size : Value) :
    Stays body allowed (newArray ty size) (Elsewhere body) := by
  refine .ite ((Stays.arith once).bind fun data _ => ?_)
    (Stays.bind (.of trivial) fun data (_ : True) => ?_)
  all_goals
    refine (Stays.arith once).bind fun total _ => (Stays.compare once).bind fun valid _ => ?_
    refine (Stays.nextLabels _ _).bind fun index _ => ?_
    refine (Stays.emit (respects_of_quiet rfl)).bind fun _ _ => ?_
    refine (trap_stays _ _).bind fun _ _ => (Stays.startBlock _).bind fun _ _ => ?_
    refine (calloc_stays once total).bind fun memory hmemory => ?_
    refine (Stays.cast once hmemory).bind fun count hcount => ?_
    refine (Stays.store (admits_of_elsewhere hcount _)).bind fun _ _ => .of ?_
    split
    · exact hcount
    · exact hmemory

theorem arrayLength_stays (ty : Ty) {array : Value} (h : Elsewhere body array) :
    Stays body allowed (arrayLength ty array) (Elsewhere body) := by
  refine .ite ((Stays.of h).bind fun count hcount => ?_)
    ((Stays.cast once h).bind fun count hcount => ?_)
  all_goals exact .load once (admits_of_elsewhere hcount _)

theorem elementPointer_stays (ty : Ty) {array : Value} (h : Elsewhere body array) (index : Value) :
    Stays body allowed (elementPointer ty array index) (Elsewhere body) := by
  refine (arrayLength_stays once ty h).bind fun length _ => ?_
  refine (Stays.compare once).bind fun first _ => (Stays.compare once).bind fun second _ => ?_
  refine (Stays.arith once).bind fun both _ => ?_
  refine (Stays.nextLabels _ _).bind fun label _ => ?_
  refine (Stays.emit (respects_of_quiet rfl)).bind fun _ _ => ?_
  refine (trap_stays _ _).bind fun _ _ => (Stays.startBlock _).bind fun _ _ => ?_
  refine .ite ?_ ?_
  all_goals exact (Stays.arith once).bind fun _ _ => .address once h

theorem loadElement_stays (ty : Ty) {element : Value} (h : Elsewhere body element) :
    Stays body allowed (loadElement ty element) (Elsewhere body) :=
  .ite (.load once (admits_of_elsewhere h _))
    ((Stays.load once (admits_of_elsewhere h _)).bind fun _ hbyte => .cast once hbyte)

omit once in
theorem storeElement_stays (ty : Ty) {element : Value} (h : Elsewhere body element)
    (value : Value) : Stays body allowed (storeElement ty element value) fun _ => True :=
  .ite (.store (admits_of_elsewhere h _))
    ((Stays.emitValue fun _ => respects_of_quiet rfl).bind fun _ _ =>
      .store (admits_of_elsewhere h _))

/-- An operand is `this`, and then an object, or it is not made from `this`. -/
def Plain (body : List Line) (ty : Ty) (v : Value) : Prop :=
  (v = .this ∧ ∃ cls, ty = .object cls) ∨ Elsewhere body v

omit once in
/-- Only objects are `this`. -/
theorem Plain.elsewhere {ty : Ty} {v : Value} (h : Plain body ty v)
    (other : ∀ cls, ty ≠ .object cls) : Elsewhere body v := by
  rcases h with ⟨_, cls, rfl⟩ | h
  · exact absurd rfl (other cls)
  · exact h

/-- Of the receiver a call reads the header. -/
theorem invoke_stays (header : allowed (.ptr .bytes) 0) (m : Method) (slot : Nat) {ty : Ty}
    {receiver : Value} (h : Plain body ty receiver) (args : List (IRType × Value)) :
    Stays body allowed (invoke m slot receiver args) (Elsewhere body) := by
  refine (Stays.emitValue fun _ => respects_of_quiet rfl).bind ?_
  rintro _ ⟨n, rfl, set⟩
  have admits : Admits body allowed (.ptr .bytes) (.temp n) := by
    intro o points
    have points : Points body receiver o := points.leads once set
    rcases h with ⟨rfl, _⟩ | elsewhere
    · obtain rfl := points_this_iff.mp points
      exact header
    · exact absurd points (elsewhere o)
  refine (Stays.load once admits).bind fun table htable => ?_
  refine (Stays.address once htable).bind fun entry hentry => ?_
  refine (Stays.load once (admits_of_elsewhere hentry _)).bind fun code hcode => ?_
  refine (Stays.cast once hcode).bind fun function _ => ?_
  exact .call once

theorem genAnd_stays {x y : Gen Value} (hx : Stays body allowed x (Elsewhere body))
    (hy : Stays body allowed y (Elsewhere body)) :
    Stays body allowed (genAnd x y) (Elsewhere body) := by
  refine hx.bind fun lhs hlhs => (Stays.nextLabels _ _).bind fun index _ => ?_
  refine Stays.currentBlock.bind fun decided _ => ?_
  refine (Stays.emit (respects_of_quiet rfl)).bind fun _ _ => ?_
  refine (Stays.startBlock _).bind fun _ _ => hy.bind fun rhs hrhs => ?_
  refine Stays.currentBlock.bind fun computed _ => ?_
  refine (Stays.emit (respects_of_quiet rfl)).bind fun _ _ => ?_
  refine (Stays.startBlock _).bind fun _ _ => ?_
  refine .quiet once (fun _ => rfl) fun o leads => ?_
  obtain ⟨p, hp, points⟩ := leads
  rcases List.mem_cons.mp hp with rfl | hp
  · exact elsewhere_of_ne (v := .bool false) nofun nofun o points
  · obtain rfl := List.mem_singleton.mp hp
    exact hrhs o points

omit once in
theorem genIf_stays {cond : Gen Value} {yes no : Gen Unit} {post : Value → Prop}
    {post' post'' : Unit → Prop} (hc : Stays body allowed cond post)
    (hy : Stays body allowed yes post') (hn : Stays body allowed no post'') :
    Stays body allowed (genIf cond yes no) fun _ => True := by
  refine hc.bind fun v _ => (Stays.nextLabels _ _).bind fun index _ => ?_
  refine (Stays.emit (respects_of_quiet rfl)).bind fun _ _ => ?_
  refine (Stays.startBlock _).bind fun _ _ => ?_
  refine hy.bind fun _ _ => (Stays.emit (respects_of_quiet rfl)).bind fun _ _ => ?_
  refine (Stays.startBlock _).bind fun _ _ => hn.bind fun _ _ => ?_
  exact (Stays.emit (respects_of_quiet rfl)).bind fun _ _ => .startBlock _

omit once in
theorem genWhile_stays {cond : Gen Value} {run : Gen Unit} {post : Value → Prop}
    {post' : Unit → Prop} (hc : Stays body allowed cond post)
    (hr : Stays body allowed run post') :
    Stays body allowed (genWhile cond run) fun _ => True := by
  refine (Stays.nextLabels _ _).bind fun index _ => ?_
  refine (Stays.emit (respects_of_quiet rfl)).bind fun _ _ => ?_
  refine (Stays.startBlock _).bind fun _ _ => ?_
  refine hc.bind fun v _ => (Stays.emit (respects_of_quiet rfl)).bind fun _ _ => ?_
  refine (Stays.startBlock _).bind fun _ _ => hr.bind fun _ _ => ?_
  exact (Stays.emit (respects_of_quiet rfl)).bind fun _ _ => .startBlock _

end Stays

end MiniJava.Codegen
