import MiniJava.Proofs.Codegen.Compositional
import MiniJava.Proofs.Codegen.Functions
import MiniJava.Proofs.IR.Graph

/-!
# Numbers of blocks

Every construct takes a number for its blocks from a counter that no other block of the same role
uses. So the numbers of the blocks that a piece of code starts lie between the counters before and
after it, and no block is started twice.
-/
namespace MiniJava.Codegen

open IR

namespace LabelCounters

/-- The number that the next block of a role gets. -/
def next (n : LabelCounters) : Role → Nat
  | .ifThen | .ifElse | .ifEnd => n.ifs
  | .loopCond | .loopBody | .loopEnd => n.loops
  | .boundsOk | .boundsErr => n.bounds
  | .sizeOk | .sizeErr => n.sizes
  | .andRhs | .andEnd => n.ands

/-- How often a block may be started, if its number is given out between two states of the
counters. -/
def given (a b : LabelCounters) : Label → Nat
  | .entry => 0
  | .block r i => if a.next r ≤ i ∧ i < b.next r then 1 else 0

theorem given_le_one (a b : LabelCounters) (l : Label) : given a b l ≤ 1 := by
  cases l with
  | entry => exact Nat.zero_le 1
  | block r i =>
    rw [given]
    split <;> omega

theorem given_add_given {a b c : LabelCounters} (hab : ∀ r, a.next r ≤ b.next r)
    (hbc : ∀ r, b.next r ≤ c.next r) (l : Label) : given a b l + given b c l ≤ given a c l := by
  cases l with
  | entry => exact Nat.le_refl 0
  | block r i =>
    have := hab r
    have := hbc r
    simp only [given]
    split <;> split <;> split <;> omega

theorem count_blocks_entry (roles : List Role) (i : Nat) :
    (roles.map fun r => Label.block r i).count .entry = 0 :=
  List.count_eq_zero_of_not_mem (by simp)

theorem count_blocks (roles : List Role) (i : Nat) (r : Role) (j : Nat) :
    (roles.map fun r => Label.block r i).count (.block r j) =
      if i = j then roles.count r else 0 := by
  induction roles with
  | nil => simp
  | cons r' roles ih =>
    by_cases same : i = j
    · subst same
      rw [if_pos rfl] at ih ⊢
      simp [List.count_cons, ih]
    · simp [ih, same]

/-- The blocks that may be started after a number was taken for them. -/
theorem count_add_given {roles : List Role} (distinct : roles.Nodup) {n m c : LabelCounters}
    {i : Nat} (hget : ∀ r ∈ roles, n.next r = i)
    (hset : ∀ r, m.next r = n.next r + if r ∈ roles then 1 else 0)
    (mono : ∀ r, m.next r ≤ c.next r) (l : Label) :
    (roles.map fun r => Label.block r i).count l + given m c l ≤ given n c l := by
  cases l with
  | entry =>
    rw [count_blocks_entry]
    exact Nat.le_refl 0
  | block r j =>
    have hset := hset r
    have mono := mono r
    rw [count_blocks]
    simp only [given]
    by_cases listed : r ∈ roles
    · have hget := hget r listed
      have single := List.nodup_iff_count.mp distinct r
      rw [if_pos listed] at hset
      split <;> split <;> split <;> omega
    · rw [if_neg listed] at hset
      rw [List.count_eq_zero_of_not_mem listed]
      split <;> split <;> split <;> omega

end LabelCounters

/-- The counters only grow, and the blocks that are started, each once, are some of the given ones
and of those whose numbers are given out here. -/
def Numbered {α : Type} (own : List Label) (x : Gen α) : Prop :=
  ∀ k, (∀ r, k.labels.next r ≤ (x k).cursor.labels.next r) ∧
    ∀ l, starts l (x k).code ≤ own.count l + k.labels.given (x k).cursor.labels l

namespace Numbered
variable {α β : Type} {own : List Label}

theorem of_quiet {x : Gen α} (labels : ∀ k, (x k).cursor.labels = k.labels)
    (code : ∀ k l, starts l (x k).code = 0) : Numbered [] x := by
  intro k
  refine ⟨fun r => Nat.le_of_eq (by rw [labels k]), fun l => ?_⟩
  rw [code k l]
  exact Nat.zero_le _

theorem of (a : α) : Numbered [] (Gen.of a) := of_quiet (fun _ => rfl) fun _ _ => rfl

theorem fail (e : CodegenError) : Numbered [] (fail e : Gen α) :=
  of_quiet (fun _ => rfl) fun _ _ => rfl

theorem emit (i : Instr) : Numbered [] (emit i) := of_quiet (fun _ => rfl) fun _ _ => rfl

theorem emitValue (rhs : Rhs) : Numbered [] (emitValue rhs) :=
  of_quiet (fun _ => rfl) fun _ _ => rfl

theorem currentBlock : Numbered [] currentBlock := of_quiet (fun _ => rfl) fun _ _ => rfl

theorem startBlock (l : Label) : Numbered [l] (startBlock l) := by
  intro k
  refine ⟨fun r => Nat.le_refl _, fun m => ?_⟩
  change 0 + (if l = m then 1 else 0) ≤ [l].count m + _
  rw [List.count_singleton]
  by_cases same : l = m
  · simp [same]
  · simp [same]

theorem bind {own' : List Label} {x : Gen α} {f : α → Gen β} (hx : Numbered own x)
    (hf : ∀ a, Numbered own' (f a)) : Numbered (own ++ own') (x >>= f) := by
  intro k
  obtain ⟨mono, once⟩ := hx k
  change (∀ r, _ ≤ (Gen.andThen x f k).cursor.labels.next r) ∧
    ∀ l, starts l (Gen.andThen x f k).code ≤
      _ + k.labels.given (Gen.andThen x f k).cursor.labels l
  simp only [Gen.andThen, List.count_append]
  cases (x k).result with
  | error e =>
    refine ⟨mono, fun l => ?_⟩
    have := once l
    dsimp only
    omega
  | ok a =>
    obtain ⟨mono', once'⟩ := hf a (x k).cursor
    refine ⟨fun r => Nat.le_trans (mono r) (mono' r), fun l => ?_⟩
    have := once l
    have := once' l
    have := LabelCounters.given_add_given mono mono' l
    dsimp only
    rw [starts_append]
    omega

theorem ite {p : Prop} [Decidable p] {x y : Gen α} (hx : Numbered own x) (hy : Numbered own y) :
    Numbered own (if p then x else y) := by
  split
  · exact hx
  · exact hy

/-- Whoever takes a number may start one block of each of the roles that the counter is for. -/
theorem take (roles : List Role) {get : LabelCounters → Nat} {set : LabelCounters → LabelCounters}
    (distinct : roles.Nodup) (hget : ∀ n, ∀ r ∈ roles, n.next r = get n)
    (hset : ∀ n r, (set n).next r = n.next r + if r ∈ roles then 1 else 0) {f : Nat → Gen β}
    (hf : ∀ i, Numbered (roles.map fun r => .block r i) (f i)) :
    Numbered [] (nextLabels get set >>= f) := by
  intro k
  obtain ⟨mono, once⟩ := hf (get k.labels) { k with labels := set k.labels }
  have mono' : ∀ r, k.labels.next r ≤ (set k.labels).next r := by
    intro r
    rw [hset]
    exact Nat.le_add_right _ _
  refine ⟨fun r => Nat.le_trans (mono' r) (mono r), fun l => ?_⟩
  have taken := LabelCounters.count_add_given distinct (hget k.labels) (hset k.labels) mono l
  exact Nat.le_trans (once l) (Nat.le_trans taken (Nat.le_add_left _ _))

theorem trap (l : Label) (b : Builtin) : Numbered [l] (trap l b) :=
  (startBlock l).bind fun _ => (emit _).bind fun _ => emit _

theorem newArray (ty : Ty) (size : Value) : Numbered [] (newArray ty size) := by
  refine ite ((emitValue _).bind fun _ => ?_) ((of _).bind fun _ => ?_)
  all_goals
    refine (emitValue _).bind fun _ => (emitValue _).bind fun _ => ?_
    refine take [.sizeErr, .sizeOk] (by decide) (by simp [LabelCounters.next])
      (by rintro n (_ | _) <;> rfl) fun _ => ?_
    exact (emit _).bind fun _ => (trap _ _).bind fun _ => (startBlock _).bind fun _ =>
      (emitValue _).bind fun _ => (emitValue _).bind fun _ => (emit _).bind fun _ => of _

theorem arrayLength (ty : Ty) (array : Value) : Numbered [] (arrayLength ty array) :=
  ite ((of _).bind fun _ => emitValue _) ((emitValue _).bind fun _ => emitValue _)

theorem elementPointer (ty : Ty) (array index : Value) :
    Numbered [] (elementPointer ty array index) := by
  refine (arrayLength ty array).bind fun _ => (emitValue _).bind fun _ => (emitValue _).bind fun _ =>
    (emitValue _).bind fun _ => ?_
  refine take [.boundsErr, .boundsOk] (by decide) (by simp [LabelCounters.next])
    (by rintro n (_ | _) <;> rfl) fun _ => ?_
  refine (emit _).bind fun _ => (trap _ _).bind fun _ => (startBlock _).bind fun _ => ?_
  exact ite ((emitValue _).bind fun _ => emitValue _)
    ((emitValue _).bind fun _ => emitValue _)

theorem genAnd {a b : Gen Value} (ha : Numbered [] a) (hb : Numbered [] b) :
    Numbered [] (genAnd a b) := by
  refine ha.bind fun _ => take [.andRhs, .andEnd] (by decide) (by simp [LabelCounters.next])
    (by rintro n (_ | _) <;> rfl) fun _ => ?_
  exact currentBlock.bind fun _ => (emit _).bind fun _ => (startBlock _).bind fun _ =>
    hb.bind fun _ => currentBlock.bind fun _ => (emit _).bind fun _ => (startBlock _).bind fun _ =>
    emitValue _

theorem genIf {cond : Gen Value} {yes no : Gen Unit} (hc : Numbered [] cond)
    (hy : Numbered [] yes) (hn : Numbered [] no) : Numbered [] (genIf cond yes no) := by
  refine hc.bind fun _ => take [.ifThen, .ifElse, .ifEnd] (by decide) (by simp [LabelCounters.next])
    (by rintro n (_ | _) <;> rfl) fun _ => ?_
  exact (emit _).bind fun _ => (startBlock _).bind fun _ => hy.bind fun _ => (emit _).bind fun _ =>
    (startBlock _).bind fun _ => hn.bind fun _ => (emit _).bind fun _ => startBlock _

theorem genWhile {cond : Gen Value} {body : Gen Unit} (hc : Numbered [] cond)
    (hb : Numbered [] body) : Numbered [] (genWhile cond body) := by
  refine take [.loopCond, .loopBody, .loopEnd] (by decide) (by simp [LabelCounters.next])
    (by rintro n (_ | _) <;> rfl) fun _ => ?_
  exact (emit _).bind fun _ => (startBlock _).bind fun _ => hc.bind fun _ => (emit _).bind fun _ =>
    (startBlock _).bind fun _ => hb.bind fun _ => (emit _).bind fun _ => startBlock _

theorem compositional : Compositional (Numbered []) where
  of := of
  fail := fail
  bind := bind
  emit := fun i _ _ => emit i
  emitValue := fun rhs _ => emitValue rhs
  newArray := newArray
  elementPointer := elementPointer
  genAnd := genAnd
  genIf := genIf
  genWhile := genWhile

theorem genSlots (c : Env) (params : List Local) : Numbered [.entry] (genSlots c params) :=
  (startBlock .entry).bind fun _ => (compositional.allocate c _).bind fun _ =>
    compositional.storeParams c params

theorem mainBody (c : Env) (body : List (Stmt Note Target)) :
    Numbered [.entry] (mainBody c body) :=
  (genSlots c []).bind fun _ => (compositional.genStmts c body).bind fun _ => emit _

theorem methodBody (c : Env) (m : Method) (body : List (Stmt Note Target)) (result : Expr Note) :
    Numbered [.entry] (methodBody c m body result) :=
  (genSlots c m.params).bind fun _ => (compositional.genStmts c body).bind fun _ =>
    (compositional.genExpr c result).bind fun _ => emit _

/-- A function starts no block twice. -/
theorem starts_le_one {x : Gen α} (h : Numbered [.entry] x) (k : Cursor) (l : Label) :
    starts l (x k).code ≤ 1 := by
  refine Nat.le_trans ((h k).2 l) ?_
  cases l with
  | entry => exact Nat.le_refl 1
  | block r i =>
    exact Nat.le_trans (Nat.le_of_eq (Nat.zero_add _)) (LabelCounters.given_le_one _ _ _)

end Numbered

section Functions
variable {t : ClassTable} {l : Layout} {p : Program .checked}

theorem HasSource.numbered {s : Source} (h : HasSource t l p s) : Numbered [.entry] s.code := by
  cases h with
  | main => exact .mainBody _ _
  | method _ _ _ _ _ => exact .methodBody _ _ _ _

def StartsOnce (f : Function) : Prop := ∀ l, starts l f.body ≤ 1

/-- No function of a module starts a block twice. -/
theorem generate_startsOnce (t : ClassTable) (l : Layout) (p : Program .checked) :
    ∀ f ∈ (generate t l p).1.functions, StartsOnce f := by
  intro f hf
  obtain ⟨s, n, hs, rfl⟩ := exists_source f hf
  exact hs.numbered.starts_le_one _

/-- The labels of all blocks but the first of each function. -/
def innerLabels (functions : List Function) : List Label :=
  functions.flatMap fun f => (started f.body).filter (· ≠ .entry)

theorem count_innerLabels_cons (r : Role) (i : Nat) (f : Function) (functions : List Function) :
    (innerLabels (f :: functions)).count (.block r i) =
      starts (.block r i) f.body + (innerLabels functions).count (.block r i) := by
  rw [innerLabels, List.flatMap_cons, List.count_append, List.count_filter (by simp),
    starts_eq_count]
  rfl

/-- The counters go on growing from one function to the next. -/
structure NumberedFrom (n : LabelCounters) (b : Built) : Prop where
  mono : ∀ r, n.next r ≤ b.labels.next r
  once : ∀ r i, (innerLabels b.functions).count (.block r i) ≤ n.given b.labels (.block r i)

theorem NumberedFrom.add {s : Source} (numbered : Numbered [.entry] s.code)
    {rest : LabelCounters → Built} (hrest : ∀ n, NumberedFrom n (rest n)) (n : LabelCounters) :
    NumberedFrom n (addFunction n s.header s.code rest) := by
  obtain ⟨mono, once⟩ := numbered { labels := n }
  have once : ∀ r i, starts (.block r i) (s.code { labels := n }).code ≤
      n.given (s.code { labels := n }).cursor.labels (.block r i) := by
    intro r i
    have := once (.block r i)
    rwa [List.count_singleton, if_neg (by simp), Nat.zero_add] at this
  rw [addFunction]
  generalize s.code { labels := n } = e at mono once
  obtain ⟨result, code, cursor⟩ := e
  cases result with
  | error failure =>
    refine ⟨mono, fun r i => ?_⟩
    rw [count_innerLabels_cons]
    exact once r i
  | ok u =>
    obtain ⟨mono', once'⟩ := hrest cursor.labels
    refine ⟨fun r => Nat.le_trans (mono r) (mono' r), fun r i => ?_⟩
    refine Nat.le_trans ?_ (LabelCounters.given_add_given mono mono' (.block r i))
    rw [count_innerLabels_cons]
    exact Nat.add_le_add (once r i) (once' r i)

/-- In a whole module every block but the first of each function has a label of its own. -/
theorem count_innerLabels_le_one (t : ClassTable) (l : Layout) (p : Program .checked) (r : Role)
    (i : Nat) : (innerLabels (generate t l p).1.functions).count (.block r i) ≤ 1 := by
  have numbered : NumberedFrom {} (programFunctions t l p) := by
    refine programFunctions_induction (P := NumberedFrom) (fun n _ => ?_) (fun n => ?_)
      fun s hs rest ih n => .add hs.numbered ih n
    · exact ⟨fun _ => Nat.le_refl _, fun _ _ => Nat.zero_le _⟩
    · exact ⟨fun _ => Nat.le_refl _, fun _ _ => Nat.zero_le _⟩
  exact Nat.le_trans (numbered.once r i) (LabelCounters.given_le_one _ _ _)

/-- No two blocks of a module are written with one label, but for the first of each function. -/
theorem generate_innerLabels_nodup (t : ClassTable) (l : Layout) (p : Program .checked) :
    ((innerLabels (generate t l p).1.functions).map Label.text).Nodup := by
  refine List.Nodup.map (fun _ _ same => Label.text_injective same) ?_
  refine List.nodup_iff_count.mpr fun m => ?_
  cases m with
  | entry =>
    rw [List.count_eq_zero_of_not_mem (by simp [innerLabels])]
    exact Nat.zero_le 1
  | block r i =>
    exact count_innerLabels_le_one t l p r i

end Functions

end MiniJava.Codegen
