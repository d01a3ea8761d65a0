import Mathlib.Data.List.Nodup
import MiniJava.Codegen.Function
import MiniJava.Proofs.Scalar.Expression

/-!
# Code of scalar statements

The code of a statement does what the statement does. If the statement ends, running its code gets
to what follows it, with the same output and the slots of the store that is left behind. If running
it gets as far as a return, the statement ends: a loop is left after fewer instructions than the
function runs.
-/
namespace MiniJava.Codegen

open IR

/-- The machine has got to a position, has printed numbers on the way, and its slots hold a
store. -/
structure Arrives (m : Machine) (c : Env) (s : State) (b : Label) (rest : List Line)
    (out : List Int32) (σ : Store) (s' : State) : Prop where
  reaches : m.Reaches s s'
  stands : Stands m b rest s'
  holds : Holds c σ s'.slots
  output : s'.output = s.output ++ out.map Int32.toInt

/-- Code that was emitted from a cursor has an effect, and no effect is possible only if no return
is reached. -/
structure Performs (m : Machine) (c : Env) (k : Cursor) (e : Emitted Unit) (a : Effect) :
    Prop where
  result : e.result = .ok ()
  forward : ∀ {σ out σ'}, a σ out σ' → ∀ {rest s}, Holds c σ s.slots →
    Stands m k.block (e.code ++ rest) s → ∃ s', Arrives m c s e.cursor.block rest out σ' s'
  backward : ∀ {σ rest s n}, Holds c σ s.slots → Stands m k.block (e.code ++ rest) s →
    m.ReturnsIn n s → ∃ out σ', a σ out σ'

def Implements (m : Machine) (c : Env) (x : Gen Unit) (a : Effect) : Prop :=
  ∀ k, Performs m c k (x k) a

section Arrives
variable {m : Machine} {c : Env} {s s' s'' : State} {b b' : Label} {rest rest' : List Line}
  {out out' : List Int32} {σ σ' : Store}

theorem Arrives.trans (h : Arrives m c s b rest out σ s')
    (h' : Arrives m c s' b' rest' out' σ' s'') : Arrives m c s b' rest' (out ++ out') σ' s'' := by
  refine ⟨h.reaches.trans h'.reaches, h'.stands, h'.holds, ?_⟩
  rw [h'.output, h.output, List.map_append, List.append_assoc]

/-- Nothing is printed and nothing is stored. -/
theorem Arrives.of_keeps {n : Nat} (reaches : m.Reaches s s') (stands : Stands m b rest s')
    (keeps : Keeps n s s') (holds : Holds c σ s.slots) : Arrives m c s b rest [] σ s' := by
  refine ⟨reaches, stands, keeps.slots ▸ holds, ?_⟩
  rw [keeps.output, List.map_nil, List.append_nil]

end Arrives

section Implements
variable {m : Machine} {c : Env}

theorem Implements.skip : Implements m c (Gen.of ()) .skip := by
  intro k
  refine ⟨rfl, ?_, ?_⟩
  · rintro σ _ _ ⟨⟩ rest s holds stands
    exact ⟨s, .of_keeps (.refl m s) stands (.refl 0 s) holds⟩
  · exact fun _ _ _ => ⟨[], _, .rule⟩

theorem Implements.seq {x y : Gen Unit} {a b : Effect} (hx : Implements m c x a)
    (hy : Implements m c y b) : Implements m c (do x; y) (.seq a b) := by
  intro k
  have hx := hx k
  have hy := hy (x k).cursor
  rw [bind_eq hx.result]
  refine ⟨hy.result, ?_, ?_⟩
  · rintro σ _ σ' ⟨ha, hb⟩ rest s holds stands
    rw [List.append_assoc] at stands
    obtain ⟨s₁, arrives₁⟩ := hx.forward ha holds stands
    obtain ⟨s₂, arrives₂⟩ := hy.forward hb arrives₁.holds arrives₁.stands
    exact ⟨s₂, arrives₁.trans arrives₂⟩
  · intro σ rest s n holds stands returns
    rw [List.append_assoc] at stands
    obtain ⟨out₁, σ₁, ha⟩ := hx.backward holds stands returns
    obtain ⟨s₁, arrives₁⟩ := hx.forward ha holds stands
    obtain ⟨r, _, returns⟩ := returns.later arrives₁.reaches
    obtain ⟨out₂, σ₂, hb⟩ := hy.backward arrives₁.holds arrives₁.stands returns
    exact ⟨_, σ₂, .rule ha hb⟩

theorem slotName_injective (c : Env) : Function.Injective (slotName c) := fun _ _ h =>
  (String.append_right_inj _).mp h

theorem Holds.update {σ : Store} {slots : String → Option Word} (holds : Holds c σ slots)
    (distinct : (c.locals.map (·.name)).Nodup) {l : Local} (hl : l ∈ c.locals) {v : Scalar}
    (hv : v.ty = l.ty) : Holds c (Function.update σ l.name v)
      (Function.update slots (slotName c l.name) (some v.word)) := by
  intro l' hl' scalar
  by_cases same : l'.name = l.name
  · obtain rfl := List.inj_on_of_nodup_map distinct hl' hl same
    rw [Function.update_self, Function.update_self]
    exact ⟨hv, rfl⟩
  · rw [Function.update_of_ne same,
      Function.update_of_ne fun h => same (slotName_injective c h)]
    exact holds l' hl' scalar

theorem Implements.assign (distinct : (c.locals.map (·.name)).Nodup) {i : Nat} {l : Local}
    (hl : c.locals[i]? = some l) (scalar : l.ty.isScalar = true) {x : Gen Value}
    {f : Store → Option Scalar} (hx : Computes m c x l.ty f) :
    Implements m c (do
      let v ← x
      storeVar c (.loc i) v) (.assign l.name f) := by
  intro k
  obtain ⟨v, hv⟩ := hx k
  have emitted : storeVar c (.loc i) v = emit (.store l.ty.ir v (c.slot l)) := by
    funext k
    simp only [storeVar, varTy, varPointer, hl]
    rfl
  rw [bind_eq hv.result, emitted]
  refine ⟨rfl, ?_, ?_⟩
  · rintro σ _ _ ⟨ha⟩ rest s holds stands
    rw [List.append_assoc] at stands
    obtain ⟨a', s₁, value, hty, reaches, stands₁, keeps, operand⟩ := hv.run σ _ s holds stands
    obtain rfl := Option.some.inj (ha.symm.trans value)
    obtain ⟨hold, slot⟩ := holds l (List.mem_of_getElem? hl) scalar
    rw [← keeps.slots] at slot holds
    have content : s₁.content l.ty.ir (.slot (slotName c l.name)) = some (σ l.name).word := by
      rw [State.content, slot, Option.filter_some, ← hold, Scalar.word_fits, if_pos rfl]
    refine ⟨_, reaches.trans (.of_step (Machine.step_store stands₁.rest content operand)),
      stands₁.next rfl rfl, holds.update distinct (List.mem_of_getElem? hl) hty, ?_⟩
    rw [keeps.output, List.map_nil, List.append_nil]
  · intro σ rest s n holds stands _
    rw [List.append_assoc] at stands
    obtain ⟨a, _, value, _⟩ := hv.run σ _ s holds stands
    exact ⟨[], _, .rule value⟩

theorem Computes.print {x : Gen Value} {f : Store → Option Scalar}
    (hx : Computes m c x .int f) :
    Implements m c (do
      let v ← x
      genPrint v) (.print f) := by
  intro k
  obtain ⟨v, hv⟩ := hx k
  rw [bind_eq hv.result]
  refine ⟨rfl, ?_, ?_⟩
  · rintro σ _ _ ⟨hn⟩ rest s holds stands
    rw [List.append_assoc] at stands
    obtain ⟨a, s₁, value, _, reaches, stands₁, keeps, operand⟩ := hv.run _ _ s holds stands
    obtain rfl := Option.some.inj (hn.symm.trans value)
    refine ⟨_, reaches.trans (.of_step (Machine.step_print stands₁.rest operand)),
      stands₁.next rfl rfl, keeps.slots ▸ holds, ?_⟩
    rw [keeps.output]
    rfl
  · intro σ rest s n holds stands _
    rw [List.append_assoc] at stands
    obtain ⟨a, _, value, hty, _⟩ := hv.run σ _ s holds stands
    obtain ⟨n, rfl⟩ := Scalar.exists_int hty
    exact ⟨[n], σ, .rule value⟩

end Implements

section Blocks
variable {m : Machine} {c : Env} {σ σ' : Store} {rest lines : List Line} {s : State}

/-- A condition is computed and the block that it selects is entered. -/
theorem Evaluates.branch (once : m.Unambiguous) {k : Cursor} {e : Emitted Value}
    {f : Store → Option Scalar} {v : Value} (hv : Evaluates m c k e .boolean f v)
    {yes no : Label} (holds : Holds c σ s.slots)
    (stands : Stands m k.block (e.code ++ .instr (.branch v yes no) :: rest) s) :
    ∃ p, f σ = some (.boolean p) ∧ ∀ {lines}, .label (if p then yes else no) :: lines <:+ m.code →
      ∃ s', Arrives m c s (if p then yes else no) lines [] σ s' ∧
        ∀ {n}, m.ReturnsIn n s → ∃ r < n, m.ReturnsIn r s' := by
  obtain ⟨a, s₁, value, hty, reaches, stands₁, keeps, operand⟩ := hv.run σ _ s holds stands
  obtain ⟨p, rfl⟩ := Scalar.exists_boolean hty
  refine ⟨p, value, fun target => ?_⟩
  obtain ⟨s₂, taken, stands₂, _, keeps₂⟩ := stands₁.branch once operand target
  refine ⟨s₂, .of_keeps (reaches.trans (.of_step taken)) stands₂
    (keeps.trans (keeps₂ _) (Nat.le_refl _)) holds, fun returns => ?_⟩
  obtain ⟨r, hr, returns⟩ := returns.later reaches
  obtain ⟨r', hr', returns⟩ := returns.next taken
  exact ⟨r', Nat.lt_of_lt_of_le hr' hr, returns⟩

/-- A piece of code has its effect and goes on to a block. -/
theorem Performs.jump (once : m.Unambiguous) {k : Cursor} {e : Emitted Unit} {a : Effect}
    (h : Performs m c k e a) {out : List Int32} (ha : a σ out σ') {l : Label}
    (target : .label l :: lines <:+ m.code) (holds : Holds c σ s.slots)
    (stands : Stands m k.block (e.code ++ .instr (.jump l) :: rest) s) :
    ∃ s', Arrives m c s l lines out σ' s' := by
  obtain ⟨s₁, arrives₁⟩ := h.forward ha holds stands
  obtain ⟨s₂, taken, stands₂, _, keeps₂⟩ := arrives₁.stands.jump once target
  have arrives₂ := Arrives.of_keeps (.of_step taken) stands₂ (keeps₂ 0) arrives₁.holds
  exact ⟨s₂, List.append_nil out ▸ arrives₁.trans arrives₂⟩

end Blocks

theorem Implements.ifElse {m : Machine} {c : Env} (once : m.Unambiguous) {cond : Gen Value}
    {yes no : Gen Unit} {f : Store → Option Scalar} {a b : Effect}
    (hc : Computes m c cond .boolean f) (hyes : Implements m c yes a) (hno : Implements m c no b) :
    Implements m c (genIf cond yes no) (.choose f a b) := by
  intro k
  obtain ⟨v, hv⟩ := hc k
  generalize hi : (cond k).cursor.labels.ifs = i
  generalize hk₁ : Cursor.mk { (cond k).cursor.labels with ifs := i + 1 } (cond k).cursor.temps
    (.block .ifThen i) = k₁
  have hyes := hyes k₁
  generalize hk₂ : Cursor.mk (yes k₁).cursor.labels (yes k₁).cursor.temps (.block .ifElse i) = k₂
  have hno := hno k₂
  have then₁ : k₁.block = .block .ifThen i := by rw [← hk₁]
  have else₂ : k₂.block = .block .ifElse i := by rw [← hk₂]
  rw [genIf_eq hv.result hi hk₁.symm hyes.result hk₂.symm hno.result]
  refine ⟨rfl, ?_, ?_⟩
  · intro σ out σ' effect rest s holds stands
    simp only [List.append_assoc, List.cons_append, List.nil_append] at stands
    have thenAt := (List.suffix_cons _ _).trans ((List.suffix_append _ _).trans stands.within)
    have elseAt := (List.suffix_cons _ _).trans (List.suffix_cons_append.trans thenAt)
    have endAt := (List.suffix_cons _ _).trans (List.suffix_cons_append.trans elseAt)
    obtain ⟨p, value, enter⟩ := hv.branch once holds stands
    cases effect with
    | yes chosen effect =>
      obtain rfl := Scalar.boolean.inj (Option.some.inj (chosen.symm.trans value))
      obtain ⟨s₁, arrives₁, _⟩ := enter thenAt
      obtain ⟨s₂, arrives₂⟩ := hyes.jump once effect endAt arrives₁.holds (then₁ ▸ arrives₁.stands)
      exact ⟨s₂, arrives₁.trans arrives₂⟩
    | no chosen effect =>
      obtain rfl := Scalar.boolean.inj (Option.some.inj (chosen.symm.trans value))
      obtain ⟨s₁, arrives₁, _⟩ := enter elseAt
      obtain ⟨s₂, arrives₂⟩ := hno.jump once effect endAt arrives₁.holds (else₂ ▸ arrives₁.stands)
      exact ⟨s₂, arrives₁.trans arrives₂⟩
  · intro σ rest s n holds stands returns
    simp only [List.append_assoc, List.cons_append, List.nil_append] at stands
    have thenAt := (List.suffix_cons _ _).trans ((List.suffix_append _ _).trans stands.within)
    have elseAt := (List.suffix_cons _ _).trans (List.suffix_cons_append.trans thenAt)
    obtain ⟨p, value, enter⟩ := hv.branch once holds stands
    cases p with
    | true =>
      obtain ⟨s₁, arrives₁, sooner⟩ := enter thenAt
      obtain ⟨r, _, returns⟩ := sooner returns
      obtain ⟨out, σ', effect⟩ :=
        hyes.backward arrives₁.holds (then₁ ▸ arrives₁.stands) returns
      exact ⟨out, σ', .yes value effect⟩
    | false =>
      obtain ⟨s₁, arrives₁, sooner⟩ := enter elseAt
      obtain ⟨r, _, returns⟩ := sooner returns
      obtain ⟨out, σ', effect⟩ := hno.backward arrives₁.holds (else₂ ▸ arrives₁.stands) returns
      exact ⟨out, σ', .no value effect⟩

/-- What follows the label of the condition of a loop. -/
def loopLines (i : Nat) (cond : List Line) (v : Value) (body rest : List Line) : List Line :=
  cond ++ .instr (.branch v (.block .loopBody i) (.block .loopEnd i)) ::
    .label (.block .loopBody i) :: (body ++ .instr (.jump (.block .loopCond i)) ::
      .label (.block .loopEnd i) :: rest)

section Loop
variable {m : Machine} {c : Env} {k₁ k₂ : Cursor} {e : Emitted Value} {b : Emitted Unit}
  {f : Store → Option Scalar} {a : Effect} {v : Value} {i : Nat} {rest : List Line}
  (once : m.Unambiguous) (hv : Evaluates m c k₁ e .boolean f v) (hb : Performs m c k₂ b a)
  (cond₁ : k₁.block = .block .loopCond i) (body₂ : k₂.block = .block .loopBody i)
  (head : .label (.block .loopCond i) :: loopLines i e.code v b.code rest <:+ m.code)
include once hv hb cond₁ body₂ head

theorem loop_forward {σ σ' : Store} {out : List Int32} (effect : Effect.loop f a σ out σ') :
    ∀ {s}, Holds c σ s.slots →
      Stands m (.block .loopCond i) (loopLines i e.code v b.code rest) s →
      ∃ s', Arrives m c s (.block .loopEnd i) rest out σ' s' := by
  have bodyAt := (List.suffix_cons _ _).trans (List.suffix_cons_append.trans head)
  have endAt := (List.suffix_cons _ _).trans (List.suffix_cons_append.trans bodyAt)
  induction effect with
  | done final =>
    intro s holds stands
    obtain ⟨p, value, enter⟩ := hv.branch once holds (cond₁ ▸ stands)
    obtain rfl := Scalar.boolean.inj (Option.some.inj (final.symm.trans value))
    obtain ⟨s', arrives, _⟩ := enter endAt
    exact ⟨s', arrives⟩
  | again more effect _ ih =>
    intro s holds stands
    obtain ⟨p, value, enter⟩ := hv.branch once holds (cond₁ ▸ stands)
    obtain rfl := Scalar.boolean.inj (Option.some.inj (more.symm.trans value))
    obtain ⟨s₁, arrives₁, _⟩ := enter bodyAt
    obtain ⟨s₂, arrives₂⟩ := hb.jump once effect head arrives₁.holds (body₂ ▸ arrives₁.stands)
    obtain ⟨s₃, arrives₃⟩ := ih arrives₂.holds arrives₂.stands
    exact ⟨s₃, (arrives₁.trans arrives₂).trans arrives₃⟩

/-- A round of the loop takes at least one instruction. -/
theorem loop_backward (n : Nat) :
    ∀ {σ s}, Holds c σ s.slots →
      Stands m (.block .loopCond i) (loopLines i e.code v b.code rest) s → m.ReturnsIn n s →
      ∃ out σ', Effect.loop f a σ out σ' := by
  have bodyAt := (List.suffix_cons _ _).trans (List.suffix_cons_append.trans head)
  induction n using Nat.strongRecOn with
  | ind n ih =>
    intro σ s holds stands returns
    obtain ⟨p, value, enter⟩ := hv.branch once holds (cond₁ ▸ stands)
    cases p with
    | false => exact ⟨[], σ, .done value⟩
    | true =>
      obtain ⟨s₁, arrives₁, sooner⟩ := enter bodyAt
      obtain ⟨r, hr, returns⟩ := sooner returns
      have stands₁ := body₂ ▸ arrives₁.stands
      obtain ⟨out₁, σ₁, effect⟩ := hb.backward arrives₁.holds stands₁ returns
      obtain ⟨s₂, arrives₂⟩ := hb.jump once effect head arrives₁.holds stands₁
      obtain ⟨r', hr', returns⟩ := returns.later arrives₂.reaches
      obtain ⟨out₂, σ', more⟩ :=
        ih r' (Nat.lt_of_le_of_lt hr' hr) arrives₂.holds arrives₂.stands returns
      exact ⟨out₁ ++ out₂, σ', .again value effect more⟩

end Loop

theorem Implements.while {m : Machine} {c : Env} (once : m.Unambiguous) {cond : Gen Value}
    {body : Gen Unit} {f : Store → Option Scalar} {a : Effect}
    (hc : Computes m c cond .boolean f) (hb : Implements m c body a) :
    Implements m c (genWhile cond body) (.loop f a) := by
  intro k
  generalize hi : k.labels.loops = i
  generalize hk₁ : Cursor.mk { k.labels with loops := i + 1 } k.temps (.block .loopCond i) = k₁
  obtain ⟨v, hv⟩ := hc k₁
  generalize hk₂ :
    Cursor.mk (cond k₁).cursor.labels (cond k₁).cursor.temps (.block .loopBody i) = k₂
  have hb := hb k₂
  have cond₁ : k₁.block = .block .loopCond i := by rw [← hk₁]
  have body₂ : k₂.block = .block .loopBody i := by rw [← hk₂]
  rw [genWhile_eq hi hk₁.symm hv.result hk₂.symm hb.result]
  have entered : ∀ {σ rest s}, Holds c σ s.slots →
      Stands m k.block (.instr (.jump (.block .loopCond i)) :: .label (.block .loopCond i) ::
        loopLines i (cond k₁).code v (body k₂).code rest) s →
      ∃ s', Arrives m c s (.block .loopCond i) (loopLines i (cond k₁).code v (body k₂).code rest)
        [] σ s' := by
    intro σ rest s holds stands
    obtain ⟨s₁, taken, stands₁, _, keeps⟩ :=
      stands.jump once ((List.suffix_cons _ _).trans stands.within)
    exact ⟨s₁, .of_keeps (.of_step taken) stands₁ (keeps 0) holds⟩
  refine ⟨rfl, ?_, ?_⟩
  · intro σ out σ' effect rest s holds stands
    simp only [List.append_assoc, List.cons_append, List.nil_append] at stands
    have head := (List.suffix_cons _ _).trans stands.within
    obtain ⟨s₁, arrives₁⟩ := entered holds stands
    obtain ⟨s₂, arrives₂⟩ :=
      loop_forward once hv hb cond₁ body₂ head effect arrives₁.holds arrives₁.stands
    exact ⟨s₂, arrives₁.trans arrives₂⟩
  · intro σ rest s n holds stands returns
    simp only [List.append_assoc, List.cons_append, List.nil_append] at stands
    have head := (List.suffix_cons _ _).trans stands.within
    obtain ⟨s₁, arrives₁⟩ := entered holds stands
    obtain ⟨r, _, returns⟩ := returns.later arrives₁.reaches
    exact loop_backward once hv hb cond₁ body₂ head r arrives₁.holds arrives₁.stands returns

end MiniJava.Codegen
