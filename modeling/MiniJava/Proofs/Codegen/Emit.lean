import MiniJava.Codegen.Function

/-!
# Steps of code generation

What each step adds to the code and hands on to the steps after it, and the code of the constructs
whose parts have code.
-/
namespace MiniJava.Codegen

open IR

variable {α β : Type}

theorem of_bind (a : α) (f : α → Gen β) : Gen.of a >>= f = f a := rfl

theorem ofOption_some (e : CodegenError) (a : α) : ofOption e (some a) = Gen.of a := rfl

theorem bind_eq {x : Gen α} {f : α → Gen β} {k : Cursor} {a : α} (h : (x k).result = .ok a) :
    (x >>= f) k = ⟨(f a (x k).cursor).result, (x k).code ++ (f a (x k).cursor).code,
      (f a (x k).cursor).cursor⟩ := by
  change Gen.andThen x f k = _
  simp only [Gen.andThen, h]

theorem bind_assoc {γ : Type} (x : Gen α) (f : α → Gen β) (g : β → Gen γ) :
    x >>= f >>= g = x >>= fun a => f a >>= g := by
  funext k
  change Gen.andThen (Gen.andThen x f) g k = Gen.andThen x (fun a => Gen.andThen (f a) g) k
  simp only [Gen.andThen]
  cases (x k).result with
  | error e => rfl
  | ok a =>
    cases h : (f a (x k).cursor).result with
    | error e => simp only [h]
    | ok b => simp only [h, List.append_assoc]

theorem emit_bind (i : Instr) (f : Unit → Gen β) (k : Cursor) :
    (emit i >>= f) k = ⟨(f () k).result, .instr i :: (f () k).code, (f () k).cursor⟩ := rfl

theorem startBlock_bind (l : Label) (f : Unit → Gen β) (k : Cursor) :
    (startBlock l >>= f) k = ⟨(f () { k with block := l }).result,
      .label l :: (f () { k with block := l }).code, (f () { k with block := l }).cursor⟩ := rfl

theorem currentBlock_bind (f : Label → Gen β) (k : Cursor) :
    (currentBlock >>= f) k = f k.block k := rfl

theorem nextLabels_bind (get : LabelCounters → Nat) (set : LabelCounters → LabelCounters)
    (f : Nat → Gen β) (k : Cursor) :
    (nextLabels get set >>= f) k = f (get k.labels) { k with labels := set k.labels } := rfl

/-- The code of `&&`, if both operands have code. -/
theorem genAnd_eq {x y : Gen Value} {k k₁ : Cursor} {v w : Value} {i : Nat}
    (hv : (x k).result = .ok v) (hi : (x k).cursor.labels.ands = i)
    (hk : k₁ = { (x k).cursor with
      labels := { (x k).cursor.labels with ands := i + 1 }, block := .block .andRhs i })
    (hw : (y k₁).result = .ok w) :
    genAnd x y k = ⟨.ok (.temp (y k₁).cursor.temps),
      (x k).code ++ .instr (.branch v (.block .andRhs i) (.block .andEnd i)) ::
        .label (.block .andRhs i) :: ((y k₁).code ++ [.instr (.jump (.block .andEnd i)),
          .label (.block .andEnd i), .instr (.set (y k₁).cursor.temps
            (.phi .i1 [(.bool false, (x k).cursor.block), (w, (y k₁).cursor.block)]))]),
      { (y k₁).cursor with temps := (y k₁).cursor.temps + 1, block := .block .andEnd i }⟩ := by
  subst hk hi
  simp only [genAnd, bind_eq hv, nextAnd, nextLabels_bind, currentBlock_bind, emit_bind,
    startBlock_bind, bind_eq hw]
  rfl

/-- The code of a statement with two branches, if all three parts have code. -/
theorem genIf_eq {cond : Gen Value} {yes no : Gen Unit} {k k₁ k₂ : Cursor} {v : Value} {i : Nat}
    (hv : (cond k).result = .ok v) (hi : (cond k).cursor.labels.ifs = i)
    (hk₁ : k₁ = { (cond k).cursor with
      labels := { (cond k).cursor.labels with ifs := i + 1 }, block := .block .ifThen i })
    (hyes : (yes k₁).result = .ok ())
    (hk₂ : k₂ = { (yes k₁).cursor with block := .block .ifElse i })
    (hno : (no k₂).result = .ok ()) :
    genIf cond yes no k = ⟨.ok (),
      (cond k).code ++ .instr (.branch v (.block .ifThen i) (.block .ifElse i)) ::
        .label (.block .ifThen i) :: ((yes k₁).code ++ .instr (.jump (.block .ifEnd i)) ::
          .label (.block .ifElse i) :: ((no k₂).code ++ [.instr (.jump (.block .ifEnd i)),
            .label (.block .ifEnd i)])),
      { (no k₂).cursor with block := .block .ifEnd i }⟩ := by
  subst hk₁ hk₂ hi
  simp only [genIf, bind_eq hv, nextIf, nextLabels_bind, emit_bind, startBlock_bind, bind_eq hyes,
    bind_eq hno]
  rfl

/-- The code of a loop, if the condition and the body have code. -/
theorem genWhile_eq {cond : Gen Value} {body : Gen Unit} {k k₁ k₂ : Cursor} {v : Value} {i : Nat}
    (hi : k.labels.loops = i)
    (hk₁ : k₁ = { k with labels := { k.labels with loops := i + 1 }, block := .block .loopCond i })
    (hv : (cond k₁).result = .ok v)
    (hk₂ : k₂ = { (cond k₁).cursor with block := .block .loopBody i })
    (hbody : (body k₂).result = .ok ()) :
    genWhile cond body k = ⟨.ok (),
      .instr (.jump (.block .loopCond i)) :: .label (.block .loopCond i) :: ((cond k₁).code ++
        .instr (.branch v (.block .loopBody i) (.block .loopEnd i)) ::
          .label (.block .loopBody i) :: ((body k₂).code ++
            [.instr (.jump (.block .loopCond i)), .label (.block .loopEnd i)])),
      { (body k₂).cursor with block := .block .loopEnd i }⟩ := by
  subst hk₁ hk₂ hi
  simp only [genWhile, nextLoop, nextLabels_bind, emit_bind, startBlock_bind, bind_eq hv,
    bind_eq hbody]
  rfl

def allocas (c : Env) (xs : List Local) : List Line :=
  xs.map fun x => .instr (.alloca (c.slot x) x.ty.ir)

theorem allocate_eq (c : Env) (xs : List Local) (k : Cursor) :
    allocate c xs k = ⟨.ok (), allocas c xs, k⟩ := by
  induction xs with
  | nil => rfl
  | cons x xs ih =>
    rw [allocate, emit_bind, ih]
    rfl

end MiniJava.Codegen
