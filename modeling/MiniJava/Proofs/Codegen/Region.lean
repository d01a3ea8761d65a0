import MiniJava.Proofs.Codegen.Emit
import MiniJava.Proofs.IR.Typing
import MiniJava.Proofs.IR.Structured

/-!
# Regions are generated

What a step of code generation emits is a region, wherever the names that it uses are known, and the
operand that it returns has a type from then on.
-/
namespace MiniJava.Codegen

open IR

/-- Where code is being generated, and what is known there. -/
def Cursor.point (k : Cursor) (known : Names) : Point := ⟨k.temps, k.block, known⟩

/-- A step succeeds from every cursor, its code is a region, and something holds of its result and
of the names that are known afterwards. -/
def Gives {α : Type} (known : Names) (x : Gen α) (post : Names → α → Prop) : Prop :=
  ∀ k, ∃ a known', (x k).result = .ok a ∧
    Region (k.point known) (x k).code ((x k).cursor.point known') ∧ post known' a

/-- The result is an operand of a type. -/
def Yields (known : Names) (x : Gen Value) (ty : IRType) : Prop :=
  Gives known x fun known' v => v.HasType known' ty

def Runs (known : Names) (x : Gen Unit) : Prop := Gives known x fun _ _ => True

section Gives
variable {α β : Type} {known : Names} {post : Names → α → Prop} {post' : Names → β → Prop}

theorem Gives.of {a : α} (h : post known a) : Gives known (Gen.of a) post :=
  fun _ => ⟨a, known, rfl, .nil _, h⟩

theorem Gives.pure {a : α} (h : post known a) : Gives known (Pure.pure a : Gen α) post := .of h

theorem Gives.bind {x : Gen α} {f : α → Gen β} (hx : Gives known x post)
    (hf : ∀ a known', known ⊆ known' → post known' a → Gives known' (f a) post') :
    Gives known (x >>= f) post' := by
  intro k
  obtain ⟨a, known₁, ha, region, h⟩ := hx k
  obtain ⟨b, known₂, hb, region', h'⟩ := hf a known₁ region.known_subset h (x k).cursor
  rw [bind_eq ha]
  exact ⟨b, known₂, hb, region.append region', h'⟩

theorem Gives.ite {p : Prop} [Decidable p] {x y : Gen α} (hx : p → Gives known x post)
    (hy : ¬ p → Gives known y post) : Gives known (if p then x else y) post := by
  split
  · exact hx ‹p›
  · exact hy ‹¬ p›

theorem Gives.nextLabels (get : LabelCounters → Nat) (set : LabelCounters → LabelCounters) :
    Gives known (nextLabels get set) fun _ _ => True := fun _ => ⟨_, known, rfl, .nil _, trivial⟩

theorem Runs.emit {i : Instr} (plain : i.plain = true) (typed : i.Typed known) :
    Runs known (emit i) := fun _ => ⟨(), known, rfl, .instr plain typed, trivial⟩

theorem Yields.emitValue {rhs : Rhs} {ty : IRType} (plain : rhs.phi? = none)
    (typed : rhs.Typed known) (hty : rhs.type? = some ty) (value : ty ≠ .void) :
    Yields known (emitValue rhs) ty := fun k =>
  ⟨_, _, rfl, .set (p := k.point known) plain typed hty value, .named List.mem_cons_self⟩

theorem Yields.bind {x : Gen Value} {ty : IRType} {f : Value → Gen β} (hx : Yields known x ty)
    (hf : ∀ v known', known ⊆ known' → v.HasType known' ty → Gives known' (f v) post') :
    Gives known (x >>= f) post' := Gives.bind hx hf

theorem Runs.bind {x : Gen Unit} {f : Unit → Gen β} (hx : Runs known x)
    (hf : ∀ known', known ⊆ known' → Gives known' (f ()) post') : Gives known (x >>= f) post' :=
  Gives.bind hx fun _ known' sub _ => hf known' sub

/-- A check is followed by the block that it leads to. -/
theorem Gives.check {v : Value} {ok err : Label} {b : Builtin} {f : Gen β}
    (hv : v.HasType known .i1) (stop : CallTyped known .void (.global b.name) [])
    (hf : Gives known f post') :
    Gives known (do
      emit (.branch v ok err)
      trap err b
      startBlock ok
      f) post' := by
  intro k
  obtain ⟨c, known', hc, region, h⟩ := hf { k with block := ok }
  have typed : Instr.Typed known (.call .void (.global b.name) []) := ⟨.void, Or.inl rfl, stop⟩
  have guard := @Region.check (k.point known) ok err v _ hv rfl typed
  exact ⟨c, known', hc, guard.append region, h⟩

end Gives

section Constructs
variable {known : Names}

theorem Yields.and {x y : Gen Value} (hx : Yields known x .i1)
    (hy : ∀ known', known ⊆ known' → Yields known' y .i1) : Yields known (genAnd x y) .i1 := by
  intro k
  obtain ⟨v, known₁, hv, region, typed⟩ := hx k
  generalize hk : Cursor.mk { (x k).cursor.labels with ands := (x k).cursor.labels.ands + 1 }
    (x k).cursor.temps (.block .andRhs (x k).cursor.labels.ands) = k₁
  obtain ⟨w, known₂, hw, region', typed'⟩ := hy known₁ region.known_subset k₁
  rw [genAnd_eq hv rfl hk.symm hw]
  subst hk
  exact ⟨_, _, rfl, .and region typed region' typed', .named List.mem_cons_self⟩

theorem Runs.ifElse {cond : Gen Value} {yes no : Gen Unit} (hc : Yields known cond .i1)
    (hy : ∀ known', known ⊆ known' → Runs known' yes)
    (hn : ∀ known', known ⊆ known' → Runs known' no) : Runs known (genIf cond yes no) := by
  intro k
  obtain ⟨v, known₁, hv, region, typed⟩ := hc k
  generalize hk₁ : Cursor.mk { (cond k).cursor.labels with ifs := (cond k).cursor.labels.ifs + 1 }
    (cond k).cursor.temps (.block .ifThen (cond k).cursor.labels.ifs) = k₁
  obtain ⟨_, known₂, hyes, region₁, _⟩ := hy known₁ region.known_subset k₁
  generalize hk₂ : Cursor.mk (yes k₁).cursor.labels (yes k₁).cursor.temps
    (.block .ifElse (cond k).cursor.labels.ifs) = k₂
  obtain ⟨_, known₃, hno, region₂, _⟩ := hn known₁ region.known_subset k₂
  rw [genIf_eq hv rfl hk₁.symm hyes hk₂.symm hno]
  subst hk₂ hk₁
  exact ⟨_, known₁, rfl, .ifElse region typed region₁ region₂, trivial⟩

theorem Runs.loop {cond : Gen Value} {body : Gen Unit} (hc : Yields known cond .i1)
    (hb : ∀ known', known ⊆ known' → Runs known' body) : Runs known (genWhile cond body) := by
  intro k
  generalize hk₁ : Cursor.mk { k.labels with loops := k.labels.loops + 1 } k.temps
    (.block .loopCond k.labels.loops) = k₁
  obtain ⟨v, known₁, hv, region, typed⟩ := hc k₁
  generalize hk₂ : Cursor.mk (cond k₁).cursor.labels (cond k₁).cursor.temps
    (.block .loopBody k.labels.loops) = k₂
  subst hk₁
  obtain ⟨_, known₂, hbody, region₁, _⟩ := hb known₁ region.known_subset k₂
  rw [genWhile_eq rfl rfl hv hk₂.symm hbody]
  subst hk₂
  exact ⟨_, known₁, rfl, .loop (p := k.point known) region typed region₁, trivial⟩

end Constructs

section Memory
variable {known : Names} {l : Layout} (sub : globals l ⊆ known)

theorem Yields.cast {op : Cast} {source target : IRType} {v : Value}
    (between : op.Between source target) (value : target ≠ .void)
    (hv : v.HasType known source) :
    Yields known (Codegen.emitValue (.cast op source v target)) target :=
  .emitValue rfl ⟨between, hv⟩ rfl value

theorem Yields.bitcast {a b : IRType} {v : Value} (hv : v.HasType known (.ptr a)) :
    Yields known (Codegen.emitValue (.cast .bitcast (.ptr a) v (.ptr b))) (.ptr b) :=
  .emitValue rfl ⟨⟨⟨a, rfl⟩, ⟨b, rfl⟩⟩, hv⟩ rfl nofun

theorem Yields.arith {op : Arith} {ty : IRType} {v w : Value} {n : Nat} (bits : bits? ty = some n)
    (hv : v.HasType known ty) (hw : w.HasType known ty) :
    Yields known (Codegen.emitValue (.arith op ty v w)) ty := by
  refine .emitValue rfl ⟨⟨n, bits⟩, hv, hw⟩ rfl ?_
  rintro rfl
  cases bits

theorem Yields.compare {cond : Cond} {v w : Value} (hv : v.HasType known .i32)
    (hw : w.HasType known .i32) : Yields known (Codegen.emitValue (.compare cond .i32 v w)) .i1 :=
  .emitValue rfl ⟨⟨32, rfl⟩, hv, hw⟩ rfl nofun

theorem Yields.load {ty : IRType} {ptr : Value} (hptr : ptr.HasType known (.ptr ty))
    (value : ty ≠ .void) : Yields known (Codegen.emitValue (.load ty ptr)) ty :=
  .emitValue rfl hptr rfl value

/-- The address of one of several values that lie behind each other. -/
theorem Yields.element {ty : IRType} {base i : Value} (hbase : base.HasType known (.ptr ty))
    (hi : i.HasType known .i32) :
    Yields known (Codegen.emitValue (.address ty base [i])) (.ptr ty) :=
  .emitValue rfl ⟨hbase, List.forall_mem_singleton.mpr hi⟩ (by simp [Rhs.type?, inside?]) nofun

theorem Runs.store {ty : IRType} {v ptr : Value} (hv : v.HasType known ty)
    (hptr : ptr.HasType known (.ptr ty)) : Runs known (Codegen.emit (.store ty v ptr)) :=
  .emit rfl ⟨hv, hptr⟩

include sub

theorem calloc_yields {v : Value} (hv : v.HasType known .i32) : Yields known (calloc v) .bytes := by
  refine .emitValue rfl ⟨.named (sub (mem_globals (b := .calloc) rfl)), ?_⟩ rfl nofun
  exact List.forall_mem_cons.mpr ⟨.int 1, List.forall_mem_singleton.mpr hv⟩

/-- A new object is cleared memory with the table of its class in front. -/
theorem newObject_yields {c : ClassLayout} (hc : c ∈ l) : Yields known (newObject c) .bytes := by
  refine Yields.bind (calloc_yields sub (.int _)) fun object known₁ sub₁ hobject => ?_
  refine Yields.bind (.bitcast hobject) fun header known₂ sub₂ hheader => ?_
  have table := sub₂ (sub₁ (sub (mem_globals_of_mem hc)))
  have first : Rhs.Typed known₂ (.address c.vtable.type (.global s!".{c.name}_vtable")
      [.int 0, .int 0]) := ⟨.named table, by simp [Value.HasType.int]⟩
  refine Yields.bind (.emitValue rfl first rfl nofun) fun first known₃ sub₃ hfirst => ?_
  refine Runs.bind (.store hfirst (hheader.mono sub₃)) fun known₄ sub₄ => ?_
  exact .pure (hobject.mono (List.Subset.trans sub₂ (List.Subset.trans sub₃ sub₄)))

end Memory

section Arrays
variable {known : Names} {l : Layout} {ty element : Ty} (array : ty.element? = some element)

/-- How an element is kept in memory. -/
def storedAs (ty : Ty) : IRType := if isWide ty then .i32 else .i8

include array

theorem ir_of_wide (wide : isWide ty = true) : ty.ir = .ptr .i32 ∧ element.ir = .i32 := by
  cases ty with
  | intArray =>
    obtain rfl := Option.some.inj array
    exact ⟨rfl, rfl⟩
  | _ => cases wide

theorem ir_of_not_wide (narrow : ¬ isWide ty = true) : ty.ir = .bytes ∧ element.ir = .i1 := by
  cases ty with
  | intArray => exact absurd rfl narrow
  | booleanArray =>
    obtain rfl := Option.some.inj array
    exact ⟨rfl, rfl⟩
  | _ => cases array

theorem arrayLength_yields {v : Value} (hv : v.HasType known ty.ir) :
    Yields known (arrayLength ty v) .i32 := by
  refine Gives.ite (fun wide => ?_) fun narrow => ?_
  · rw [(ir_of_wide array wide).1] at hv
    exact Yields.bind (.of hv) fun count known₁ _ hcount => Yields.load hcount nofun
  · rw [(ir_of_not_wide array narrow).1] at hv
    exact Yields.bind (.bitcast hv) fun count known₁ _ hcount => Yields.load hcount nofun

theorem newArray_yields (sub : globals l ⊆ known) {size : Value} (hsize : size.HasType known .i32) :
    Yields known (newArray ty size) ty.ir := by
  have rest : ∀ (data : Value) known₁, known ⊆ known₁ → data.HasType known₁ .i32 →
      Yields known₁ (do
        let total ← emitValue (.arith .add .i32 data (.int countBytes))
        let valid ← emitValue (.compare .ge .i32 total (.int countBytes))
        let index ← nextSize
        emit (.branch valid (.block .sizeOk index) (.block .sizeErr index))
        trap (.block .sizeErr index) .negativeSize
        startBlock (.block .sizeOk index)
        let memory ← calloc total
        let count ← emitValue (.cast .bitcast .bytes memory (.ptr .i32))
        emit (.store .i32 size count)
        return if isWide ty then count else memory) ty.ir := by
    intro data known₁ sub₁ hdata
    refine Yields.bind (.arith rfl hdata (.int _)) fun total known₂ sub₂ htotal => ?_
    refine Yields.bind (.compare htotal (.int _)) fun valid known₃ sub₃ hvalid => ?_
    refine Gives.bind (.nextLabels _ _) fun index known₄ sub₄ _ => ?_
    have known := List.Subset.trans sub₁ (List.Subset.trans sub₂ (List.Subset.trans sub₃ sub₄))
    have globals := List.Subset.trans sub known
    refine Gives.check (hvalid.mono sub₄)
      ⟨.named (globals (mem_globals (b := .negativeSize) rfl)), nofun⟩ ?_
    refine Yields.bind (calloc_yields globals (htotal.mono (List.Subset.trans sub₃ sub₄)))
      fun memory known₅ sub₅ hmemory => ?_
    refine Yields.bind (.bitcast hmemory) fun count known₆ sub₆ hcount => ?_
    refine Runs.bind (.store ((hsize.mono known).mono (List.Subset.trans sub₅ sub₆)) hcount)
      fun known₇ sub₇ => .pure ?_
    split
    · rw [(ir_of_wide array ‹_›).1]
      exact hcount.mono sub₇
    · rw [(ir_of_not_wide array ‹_›).1]
      exact hmemory.mono (List.Subset.trans sub₆ sub₇)
  refine Gives.ite (fun _ => ?_) fun _ => ?_
  · exact Yields.bind (.arith rfl hsize (.int 4)) fun data known₁ sub₁ => rest data known₁ sub₁
  · exact Yields.bind (.of hsize) fun data known₁ sub₁ => rest data known₁ sub₁

theorem elementPointer_yields (sub : globals l ⊆ known) {v i : Value} (hv : v.HasType known ty.ir)
    (hi : i.HasType known .i32) :
    Yields known (elementPointer ty v i) (.ptr (storedAs ty)) := by
  refine Yields.bind (arrayLength_yields array hv) fun length known₁ sub₁ hlength => ?_
  refine Yields.bind (.compare (hi.mono sub₁) (.int 0)) fun first known₂ sub₂ hfirst => ?_
  refine Yields.bind (.compare (hi.mono (List.Subset.trans sub₁ sub₂)) (hlength.mono sub₂))
    fun second known₃ sub₃ hsecond => ?_
  refine Yields.bind (.arith rfl (hfirst.mono sub₃) hsecond) fun both known₄ sub₄ hboth => ?_
  refine Gives.bind (.nextLabels _ _) fun label known₅ sub₅ _ => ?_
  have known := List.Subset.trans sub₁
    (List.Subset.trans sub₂ (List.Subset.trans sub₃ (List.Subset.trans sub₄ sub₅)))
  refine Gives.check (hboth.mono sub₅)
    ⟨.named (List.Subset.trans sub known (mem_globals (b := .outOfBounds) rfl)), nofun⟩ ?_
  have hv := hv.mono known
  refine Gives.ite (fun wide => ?_) fun narrow => ?_
  · rw [(ir_of_wide array wide).1] at hv
    rw [storedAs, if_pos wide]
    exact Yields.bind (.arith rfl (hi.mono known) (.int _)) fun position known₆ sub₆ hposition =>
      Yields.element (hv.mono sub₆) hposition
  · rw [(ir_of_not_wide array narrow).1] at hv
    rw [storedAs, if_neg narrow]
    exact Yields.bind (.arith rfl (hi.mono known) (.int _)) fun position known₆ sub₆ hposition =>
      Yields.element (hv.mono sub₆) hposition

/-- A byte is cut down to the bit in it. -/
theorem loadElement_yields {v : Value} (hv : v.HasType known (.ptr (storedAs ty))) :
    Yields known (loadElement ty v) element.ir := by
  refine Gives.ite (fun wide => ?_) fun narrow => ?_
  · rw [storedAs, if_pos wide] at hv
    rw [(ir_of_wide array wide).2]
    exact Yields.load hv nofun
  · rw [storedAs, if_neg narrow] at hv
    rw [(ir_of_not_wide array narrow).2]
    exact Yields.bind (.load hv nofun) fun byte known₁ _ hbyte =>
      Yields.cast ⟨rfl, rfl⟩ nofun hbyte

/-- A bit is widened to a byte. -/
theorem storeElement_runs {v w : Value} (hv : v.HasType known (.ptr (storedAs ty)))
    (hw : w.HasType known element.ir) : Runs known (storeElement ty v w) := by
  refine Gives.ite (fun wide => ?_) fun narrow => ?_
  · rw [storedAs, if_pos wide] at hv
    rw [(ir_of_wide array wide).2] at hw
    exact Runs.store hw hv
  · rw [storedAs, if_neg narrow] at hv
    rw [(ir_of_not_wide array narrow).2] at hw
    exact Yields.bind (.cast ⟨rfl, rfl⟩ nofun hw) fun byte known₁ sub₁ hbyte =>
      Runs.store hbyte (hv.mono sub₁)

end Arrays

section Calls
variable {known : Names}

theorem Ty.ir_ne_void (ty : Ty) : ty.ir ≠ .void := by
  cases ty <;> nofun

theorem arithOf_yields {op : BinOp} (arith : op ≠ .and) {v w : Value} (hv : v.HasType known .i32)
    (hw : w.HasType known .i32) : Yields known (emitValue (arithOf op v w)) op.resultTy.ir := by
  cases op with
  | and => exact absurd rfl arith
  | less => exact Yields.compare hv hw
  | add => exact Yields.arith (n := 32) rfl hv hw
  | sub => exact Yields.arith (n := 32) rfl hv hw
  | mul => exact Yields.arith (n := 32) rfl hv hw

/-- The function that is called has the type that its address was cast to. -/
theorem invoke_yields {m : Method} {slot : Nat} {receiver : Value}
    {args : List (IRType × Value)} (hreceiver : receiver.HasType known .bytes)
    (types : args.map Prod.fst = m.paramTys.map Ty.ir) (hargs : ArgsTyped known args) :
    Yields known (invoke m slot receiver args) m.returnTy.ir := by
  refine Yields.bind (.bitcast hreceiver) fun header known₁ sub₁ hheader => ?_
  refine Yields.bind (.load hheader nofun) fun table known₂ sub₂ htable => ?_
  refine Yields.bind (.element htable (.int _)) fun entry known₃ sub₃ hentry => ?_
  refine Yields.bind (.load hentry nofun) fun code known₄ sub₄ hcode => ?_
  refine Yields.bind (.bitcast hcode) fun function known₅ sub₅ hfunction => ?_
  have known := List.Subset.trans sub₁
    (List.Subset.trans sub₂ (List.Subset.trans sub₃ (List.Subset.trans sub₄ sub₅)))
  refine Yields.emitValue rfl ⟨?_, ?_⟩ rfl (Ty.ir_ne_void _)
  · rw [List.map_cons, types]
    exact hfunction
  · exact List.forall_mem_cons.mpr ⟨hreceiver.mono known, hargs.mono known⟩

end Calls

end MiniJava.Codegen
