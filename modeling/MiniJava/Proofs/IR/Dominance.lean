import Mathlib.Data.List.Nodup
import MiniJava.Proofs.IR.Graph

/-!
# Dominance

Temporaries are set once each, in the order of their numbers, and on every path through the blocks
of a function they are set before they are used. Instead of all paths one looks at what is claimed
to be set at the start of each block: if every branch to a block keeps to the claim, then every path
does.
-/
namespace MiniJava.IR

/-- What is read when the value is made. A phi reads where the block that it names is left. -/
def Rhs.operands : Rhs → List Value
  | .load _ ptr => [ptr]
  | .arith _ _ a b | .compare _ _ a b => [a, b]
  | .cast _ _ v _ => [v]
  | .address _ base path => base :: path
  | .call _ callee args => callee :: args.map Prod.snd
  | .phi .. => []

namespace Instr

def operands : Instr → List Value
  | .set _ rhs => rhs.operands
  | .store _ v ptr => [v, ptr]
  | .call _ callee args => callee :: args.map Prod.snd
  | .branch cond _ _ => [cond]
  | .ret _ v => [v]
  | .alloca .. | .jump _ | .unreachable => []

/-- The temporaries that an instruction sets. -/
def sets : Instr → List Nat
  | .set n _ => [n]
  | _ => []

end Instr

def setsOf (code : List Instr) : List Nat := code.flatMap Instr.sets

def Line.sets : Line → List Nat
  | .label _ => []
  | .instr i => i.sets

/-- The temporaries of some lines as they are set in the text. -/
def temporaries (code : List Line) : List Nat := code.flatMap Line.sets

/-- The blocks that a run has passed on its way from the first one to a block. -/
inductive Path (blocks : List Block) : List Block → Block → Prop
  | entry {b : Block} : blocks.head? = some b → Path blocks [] b
  | step {passed : List Block} {b c : Block} : Path blocks passed b → c ∈ blocks →
      c.label ∈ b.targets → Path blocks (passed ++ [b]) c

/-- The instructions of the blocks that were passed. -/
def executed (passed : List Block) : List Instr := passed.flatMap Block.code

structure Function.SingleAssignment (f : Function) : Prop where
  numbered : temporaries f.body = List.range (temporaries f.body).length
  dominated : ∀ passed b, Path f.blocks passed b → ∀ before i after,
    b.code = before ++ i :: after → ∀ n, .temp n ∈ i.operands →
      n ∈ setsOf (executed passed ++ before)
  incoming : ∀ passed b, Path f.blocks passed b → ∀ c ∈ f.blocks, ∀ i ∈ c.code, ∀ incoming,
    i.phi? = some incoming → ∀ n, (.temp n, b.label) ∈ incoming →
      n ∈ setsOf (executed passed ++ b.code)

theorem temporaries_cons (line : Line) (code : List Line) :
    temporaries (line :: code) = line.sets ++ temporaries code := List.flatMap_cons

theorem temporaries_append (code code' : List Line) :
    temporaries (code ++ code') = temporaries code ++ temporaries code' := List.flatMap_append

theorem setsOf_append (code code' : List Instr) :
    setsOf (code ++ code') = setsOf code ++ setsOf code' := List.flatMap_append

theorem Path.mem {blocks passed : List Block} {b : Block} (h : Path blocks passed b) :
    b ∈ blocks := by
  cases h with
  | entry head => exact List.mem_of_mem_head? head
  | step _ hc _ => exact hc

/-- What is claimed of a block: the temporaries that are set when it is entered, and the phi that it
may begin with. -/
structure Claim where
  label : Label
  set : List Nat
  incoming : List (Value × Label)

/-- What is claimed of a block has been set at the end of another one. -/
def Leads (claims : List Claim) (b : Label) (set : List Nat) (l : Label) : Prop :=
  ∃ c ∈ claims, c.label = l ∧ c.set ⊆ set ∧ ∀ n, (.temp n, b) ∈ c.incoming → n ∈ set

/-- A block that begins with no phi may be entered wherever what is claimed of it has been set. -/
theorem Leads.of_mem {claims : List Claim} {b l : Label} {set set' : List Nat}
    (h : ⟨l, set, []⟩ ∈ claims) (sub : set ⊆ set') : Leads claims b set' l :=
  ⟨_, h, rfl, sub, fun n hn => (by cases hn)⟩

/-- An instruction of a block reads what is set, and where it branches to it keeps to the claims. -/
structure Keeping (claims : List Claim) (b : Label) (set : List Nat) (i : Instr) : Prop where
  operands : ∀ n, .temp n ∈ i.operands → n ∈ set
  phi : ∀ incoming, i.phi? = some incoming →
    ∃ c ∈ claims, c.label = b ∧ c.incoming = incoming
  edges : ∀ l ∈ i.targets, Leads claims b set l

/-- Lines that keep to the claims, from a block with some temporaries set to another one. -/
inductive Kept (claims : List Claim) : Label → List Nat → List Line → Label → List Nat → Prop
  | nil (b : Label) (set : List Nat) : Kept claims b set [] b set
  | instr {b b' : Label} {set set' : List Nat} {i : Instr} {code : List Line} :
      Keeping claims b set i → Kept claims b (i.sets ++ set) code b' set' →
      Kept claims b set (.instr i :: code) b' set'
  | label {b b' : Label} {set set' : List Nat} {c : Claim} {code : List Line} : c ∈ claims →
      Kept claims c.label c.set code b' set' → Kept claims b set (.label c.label :: code) b' set'

section Kept
variable {claims claims' : List Claim} {b b' b'' : Label} {set set' set'' : List Nat}

theorem Keeping.mono {i : Instr} (h : Keeping claims b set i) (sub : claims ⊆ claims')
    (more : set ⊆ set') : Keeping claims' b set' i where
  operands := fun n hn => more (h.operands n hn)
  phi := by
    intro incoming hphi
    obtain ⟨c, hc, same⟩ := h.phi incoming hphi
    exact ⟨c, sub hc, same⟩
  edges := by
    intro l hl
    obtain ⟨c, hc, hlabel, before, incoming⟩ := h.edges l hl
    exact ⟨c, sub hc, hlabel, fun _ hn => more (before hn), fun n hn => more (incoming n hn)⟩

theorem Kept.mono {code : List Line} (h : Kept claims b set code b' set')
    (sub : claims ⊆ claims') : Kept claims' b set code b' set' := by
  induction h with
  | nil b set => exact .nil b set
  | instr keeping _ ih => exact .instr (keeping.mono sub (List.Subset.refl _)) ih
  | label hc _ ih => exact .label (sub hc) ih

theorem Kept.append {code code' : List Line} (h : Kept claims b set code b' set')
    (h' : Kept claims b' set' code' b'' set'') : Kept claims b set (code ++ code') b'' set'' := by
  induction h with
  | nil b set => exact h'
  | instr keeping _ ih => exact .instr keeping (ih h')
  | label hc _ ih => exact .label hc (ih h')

/-- Every instruction of a block keeps to the claims, with what the ones before it have set. -/
def Throughout (claims : List Claim) (b : Label) (set : List Nat) (code : List Instr) : Prop :=
  ∀ before i after, code = before ++ i :: after → Keeping claims b (setsOf before ++ set) i

theorem Throughout.cons {i : Instr} {code : List Instr} (h : Keeping claims b set i)
    (rest : Throughout claims b (i.sets ++ set) code) : Throughout claims b set (i :: code) := by
  intro before j after split
  cases before with
  | nil =>
    obtain ⟨rfl, _⟩ := List.cons.inj split
    exact h
  | cons k before =>
    obtain ⟨rfl, tail⟩ := List.cons.inj split
    refine (rest before j after tail).mono (List.Subset.refl _) fun n hn => ?_
    rw [setsOf, List.flatMap_cons, List.append_assoc]
    simp only [List.mem_append] at hn ⊢
    exact or_left_comm.mp hn

/-- In lines that keep to the claims every block does. -/
theorem Kept.blocks {code : List Line} (h : Kept claims b set code b' set') :
    Throughout claims b set (leading code) ∧
      ∀ k ∈ blocksOf code, ∃ c ∈ claims, c.label = k.label ∧
        Throughout claims k.label c.set k.code := by
  induction h with
  | nil b set =>
    refine ⟨fun before i after split => ?_, fun k hk => (by cases hk)⟩
    exact absurd split (by simp [leading])
  | instr keeping _ ih => exact ⟨.cons keeping ih.1, ih.2⟩
  | label hc _ ih =>
    refine ⟨fun before i after split => ?_, ?_⟩
    · exact absurd split (by simp [leading])
    · exact List.forall_mem_cons.mpr ⟨⟨_, hc, rfl, ih.1⟩, ih.2⟩

end Kept

theorem eq_of_label_eq {blocks : List Block} (once : (labelsOf blocks).Nodup) {b c : Block}
    (hb : b ∈ blocks) (hc : c ∈ blocks) (same : b.label = c.label) : b = c :=
  List.inj_on_of_nodup_map once hb hc same

section Claims
variable {claims : List Claim} {f : Function}

/-- What is claimed of a block holds of all its instructions, and a claim is about one block. -/
structure Claimed (claims : List Claim) (f : Function) : Prop where
  once : (claims.map Claim.label).Nodup
  start : ∃ c ∈ claims, c.label = .entry ∧ c.set = []
  kept : ∀ b ∈ f.blocks, ∃ c ∈ claims, c.label = b.label ∧
    Throughout claims b.label c.set b.code

namespace Claimed
variable (h : Claimed claims f)
include h

theorem unique {c d : Claim} (hc : c ∈ claims) (hd : d ∈ claims) (same : c.label = d.label) :
    c = d := List.inj_on_of_nodup_map h.once hc hd same

theorem throughout {c : Claim} (hc : c ∈ claims) {b : Block} (hb : b ∈ f.blocks)
    (same : c.label = b.label) : Throughout claims b.label c.set b.code := by
  obtain ⟨d, hd, label, keeps⟩ := h.kept b hb
  obtain rfl := h.unique hc hd (same.trans label.symm)
  exact keeps

/-- On every path to a block, what is claimed of the block has been set. -/
theorem path (entry : (labelsOf f.blocks).head? = some .entry) {passed : List Block} {b : Block}
    (path : Path f.blocks passed b) :
    ∃ c ∈ claims, c.label = b.label ∧ c.set ⊆ setsOf (executed passed) := by
  induction path with
  | entry head =>
    obtain ⟨c, hc, label, none⟩ := h.start
    rw [labelsOf, List.head?_map, head, Option.map_some] at entry
    refine ⟨c, hc, label.trans (Option.some.inj entry).symm, ?_⟩
    rw [none]
    exact List.nil_subset _
  | @step passed b k path _ target ih =>
    obtain ⟨c, hc, label, set⟩ := ih
    obtain ⟨i, hi, target⟩ := List.mem_flatMap.mp target
    obtain ⟨before, after, split⟩ := List.append_of_mem hi
    obtain ⟨d, hd, label', sub, _⟩ :=
      (h.throughout hc path.mem label before i after split).edges _ target
    refine ⟨d, hd, label', fun n hn => ?_⟩
    rw [executed, List.flatMap_append, setsOf_append, List.flatMap_singleton, split, setsOf_append]
    rcases List.mem_append.mp (sub hn) with hn | hn
    · exact List.mem_append_right _ (List.mem_append_left _ hn)
    · exact List.mem_append_left _ (set hn)

/-- Where a graph keeps to claims, definitions dominate their uses. -/
theorem singleAssignment (graph : f.WellFormed)
    (numbered : temporaries f.body = List.range (temporaries f.body).length)
    (labels : (labelsOf f.blocks).Nodup) : f.SingleAssignment where
  numbered := numbered
  dominated := by
    intro passed b path before i after split n hn
    obtain ⟨c, hc, label, set⟩ := h.path graph.entry path
    have mem := (h.throughout hc path.mem label before i after split).operands n hn
    rw [setsOf_append]
    rcases List.mem_append.mp mem with mem | mem
    · exact List.mem_append_right _ mem
    · exact List.mem_append_left _ (set mem)
  incoming := by
    intro passed b path k hk i hi incoming phi n hn
    obtain ⟨c, hc, label, set⟩ := h.path graph.entry path
    obtain ⟨before, after, split⟩ := List.append_of_mem hi
    obtain ⟨d, hd, label', keeps⟩ := h.kept k hk
    obtain ⟨d', hd', label'', rfl⟩ := (keeps before i after split).phi incoming phi
    obtain rfl := h.unique hd hd' (label'.trans label''.symm)
    -- the block that the phi names branches to it, and there the operand has been set
    have named : b.label ∈ d.incoming.map Prod.snd := List.mem_map_of_mem hn
    obtain ⟨b', hb', same⟩ := List.mem_map.mp ((graph.phis k hk i hi _ phi).2.subset named)
    obtain ⟨hb', target⟩ := List.mem_filter.mp hb'
    obtain rfl := eq_of_label_eq labels hb' path.mem same
    obtain ⟨j, hj, target⟩ := List.mem_flatMap.mp (List.contains_iff_mem.mp target)
    obtain ⟨before, after, split⟩ := List.append_of_mem hj
    obtain ⟨e, he, label₃, _, operands⟩ :=
      (h.throughout hc path.mem label before j after split).edges _ target
    obtain rfl := h.unique hd he (label'.trans label₃.symm)
    rw [setsOf_append, split, setsOf_append]
    rcases List.mem_append.mp (operands n hn) with mem | mem
    · exact List.mem_append_right _ (List.mem_append_left _ mem)
    · exact List.mem_append_left _ (set mem)

end Claimed

end Claims

end MiniJava.IR
