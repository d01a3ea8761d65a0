import MiniJava.Proofs.IR.Blocks

/-!
# Control-flow graphs

The lines of a function split into blocks, and the instruction that ends a block says where a run
may go on. A phi belongs at the start of its block and chooses by the block that was left.
-/
namespace MiniJava.IR

/-- The blocks that a run may go on in. -/
def Instr.targets : Instr → List Label
  | .jump l => [l]
  | .branch _ yes no => [yes, no]
  | _ => []

/-- The blocks that a branch or a phi names. -/
def Instr.named (i : Instr) : List Label := i.targets ++ (i.phi?.getD []).map Prod.snd

structure Block where
  label : Label
  code : List Instr

namespace Block

def lines (b : Block) : List Line := .label b.label :: b.code.map .instr

def targets (b : Block) : List Label := b.code.flatMap Instr.targets

end Block

/-- The instructions in front of the first label. -/
def leading : List Line → List Instr
  | [] => []
  | .label _ :: _ => []
  | .instr i :: code => i :: leading code

def blocksOf : List Line → List Block
  | [] => []
  | .label l :: code => ⟨l, leading code⟩ :: blocksOf code
  | .instr _ :: code => blocksOf code

def Function.blocks (f : Function) : List Block := blocksOf f.body

def labelsOf (blocks : List Block) : List Label := blocks.map (·.label)

/-- The blocks from which a run may go on in a block. -/
def predecessors (blocks : List Block) (l : Label) : List Label :=
  labelsOf (blocks.filter fun b => b.targets.contains l)

/-- One instruction ends a block, and it is the last one. -/
def Terminated (code : List Instr) : Prop :=
  ∃ before last, code = before ++ [last] ∧ last.ends = true ∧ ∀ i ∈ before, i.ends = false

/-- A function whose lines are a control-flow graph. -/
structure Function.WellFormed (f : Function) : Prop where
  split : f.body = f.blocks.flatMap Block.lines
  entry : (labelsOf f.blocks).head? = some .entry
  terminated : ∀ b ∈ f.blocks, Terminated b.code
  named : ∀ b ∈ f.blocks, ∀ i ∈ b.code, ∀ l ∈ i.named, (labelsOf f.blocks).count l = 1
  phiFirst : ∀ b ∈ f.blocks, ∀ i ∈ b.code.tail, i.phi? = none
  phis : ∀ b ∈ f.blocks, ∀ i ∈ b.code, ∀ incoming, i.phi? = some incoming →
    (incoming.map Prod.snd).Nodup ∧ (incoming.map Prod.snd).Perm (predecessors f.blocks b.label)

theorem targets_of_not_ends {i : Instr} (h : i.ends = false) : i.targets = [] := by
  cases i with
  | jump l => cases h
  | branch v yes no => cases h
  | _ => rfl

/-- The labels of the blocks that are started. -/
def started : List Line → List Label
  | [] => []
  | .label m :: code => m :: started code
  | .instr _ :: code => started code

theorem started_append (code code' : List Line) :
    started (code ++ code') = started code ++ started code' := by
  induction code with
  | nil => rfl
  | cons line code ih =>
    cases line with
    | label m => exact congrArg (m :: ·) ih
    | instr i => exact ih

theorem labelsOf_blocksOf (code : List Line) : labelsOf (blocksOf code) = started code := by
  induction code with
  | nil => rfl
  | cons line code ih =>
    cases line with
    | label m => exact congrArg (m :: ·) ih
    | instr i => exact ih

theorem starts_eq_count (l : Label) (code : List Line) :
    starts l code = (started code).count l := by
  induction code with
  | nil => rfl
  | cons line code ih =>
    cases line with
    | label m => simp [starts, started, ih, List.count_cons]
    | instr i => exact ih

theorem leading_append_blocks (code : List Line) :
    (leading code).map .instr ++ (blocksOf code).flatMap Block.lines = code := by
  induction code with
  | nil => rfl
  | cons line code ih =>
    cases line with
    | label m =>
      rw [leading, blocksOf, List.flatMap_cons, Block.lines]
      simpa using ih
    | instr i => rw [leading, blocksOf, List.map_cons, List.cons_append, ih]

/-- The block that is being filled behind some lines. -/
def lastBlock : Label → List Line → Label
  | b, [] => b
  | _, .label m :: code => lastBlock m code
  | b, .instr _ :: code => lastBlock b code

/-- The instructions, each with the block that it stands in. -/
def placed : Label → List Line → List (Label × Instr)
  | _, [] => []
  | _, .label m :: code => placed m code
  | b, .instr i :: code => (b, i) :: placed b code

theorem lastBlock_append (b : Label) (code code' : List Line) :
    lastBlock b (code ++ code') = lastBlock (lastBlock b code) code' := by
  induction code generalizing b with
  | nil => rfl
  | cons line code ih =>
    cases line with
    | label m => exact ih m
    | instr i => exact ih b

theorem placed_append (b : Label) (code code' : List Line) :
    placed b (code ++ code') = placed b code ++ placed (lastBlock b code) code' := by
  induction code generalizing b with
  | nil => rfl
  | cons line code ih =>
    cases line with
    | label m => exact ih m
    | instr i => exact congrArg ((b, i) :: ·) (ih b)

def Block.placed (b : Block) : List (Label × Instr) := b.code.map (b.label, ·)

theorem placed_eq (b : Label) (code : List Line) :
    placed b code = (leading code).map (b, ·) ++ (blocksOf code).flatMap Block.placed := by
  induction code generalizing b with
  | nil => rfl
  | cons line code ih =>
    cases line with
    | label m => exact ih m
    | instr i => exact congrArg ((b, i) :: ·) (ih b)

/-- The blocks of some instructions from which a run may go on in a block. -/
def sources (l : Label) (instrs : List (Label × Instr)) : List Label :=
  (instrs.filter fun p => p.2.targets.contains l).map Prod.fst

theorem sources_append (l : Label) (a b : List (Label × Instr)) :
    sources l (a ++ b) = sources l a ++ sources l b := by
  rw [sources, List.filter_append, List.map_append]
  rfl

theorem sources_eq_nil {l : Label} {instrs : List (Label × Instr)}
    (h : ∀ p ∈ instrs, l ∉ p.2.targets) : sources l instrs = [] := by
  rw [sources, List.filter_eq_nil_iff.mpr fun p hp => by simpa using h p hp]
  rfl

/-- Only the last instruction of a block leads to other blocks. -/
theorem sources_placed {b : Block} (terminated : Terminated b.code) (l : Label) :
    sources l b.placed = if b.targets.contains l then [b.label] else [] := by
  obtain ⟨before, last, hcode, _, quiet⟩ := terminated
  have none : ∀ i ∈ before, i.targets = [] := fun i hi => targets_of_not_ends (quiet i hi)
  have first : sources l (before.map (b.label, ·)) = [] := by
    refine sources_eq_nil fun p hp => ?_
    obtain ⟨i, hi, rfl⟩ := List.mem_map.mp hp
    rw [none i hi]
    exact List.not_mem_nil
  have targets : b.targets = last.targets := by
    rw [Block.targets, hcode, List.flatMap_append, List.flatMap_eq_nil_iff.mpr none]
    simp
  rw [Block.placed, hcode, List.map_append, sources_append, first, targets, List.nil_append]
  cases h : last.targets.contains l with
  | true => simp [sources, List.contains_iff_mem.mp h]
  | false =>
    have absent : l ∉ last.targets := by simpa using h
    simp [sources, absent]

theorem sources_blocks {blocks : List Block} (terminated : ∀ b ∈ blocks, Terminated b.code)
    (l : Label) : sources l (blocks.flatMap Block.placed) = predecessors blocks l := by
  induction blocks with
  | nil => rfl
  | cons b blocks ih =>
    obtain ⟨hb, hblocks⟩ := List.forall_mem_cons.mp terminated
    rw [List.flatMap_cons, sources_append, sources_placed hb, ih hblocks, predecessors,
      predecessors, List.filter_cons]
    split
    · rfl
    · rfl

/-- What is in front of a line: a label, another instruction of the block, or the end of one. -/
inductive Spot where
  | fresh
  | inside
  | ended
  deriving DecidableEq

/-- An instruction stands in a block, a phi right behind its label; a block that is ended is
followed by the next label. -/
def Spot.next : Spot → Line → Option Spot
  | .ended, .label _ => some .fresh
  | .ended, .instr _ => none
  | _, .label _ => none
  | .fresh, .instr i => some (if i.ends then .ended else .inside)
  | .inside, .instr i => if i.phi?.isSome then none else some (if i.ends then .ended else .inside)

def Spot.after (s : Spot) (code : List Line) : Option Spot := code.foldlM Spot.next s

theorem Spot.after_cons (s : Spot) (line : Line) (code : List Line) :
    s.after (line :: code) = (s.next line).bind (·.after code) := List.foldlM_cons

theorem Spot.after_append (s : Spot) (code code' : List Line) :
    s.after (code ++ code') = (s.after code).bind (·.after code') := List.foldlM_append

/-- What an instruction that is no phi makes of a block that is not ended. -/
theorem Spot.next_instr {s : Spot} (h : s ≠ .ended) {i : Instr} (plain : i.phi? = none) :
    s.next (.instr i) = some (if i.ends then .ended else .inside) := by
  cases s with
  | fresh => rfl
  | inside => rw [Spot.next, plain]; rfl
  | ended => exact absurd rfl h

/-- The instructions of a block from a spot on. -/
def Spot.Fits : Spot → List Instr → Prop
  | .ended, code => code = []
  | .fresh, code => Terminated code ∧ ∀ i ∈ code.tail, i.phi? = none
  | .inside, code => Terminated code ∧ ∀ i ∈ code, i.phi? = none

theorem Terminated.cons {i : Instr} {code : List Instr} (h : i.ends = false)
    (terminated : Terminated code) : Terminated (i :: code) := by
  obtain ⟨before, last, rfl, ends, quiet⟩ := terminated
  exact ⟨i :: before, last, rfl, ends, List.forall_mem_cons.mpr ⟨h, quiet⟩⟩

theorem Spot.fits_cons {s : Spot} (h : s ≠ .ended) {i : Instr} {code : List Instr}
    (plain : s = .inside → i.phi? = none)
    (fits : Spot.Fits (if i.ends then .ended else .inside) code) : s.Fits (i :: code) := by
  have shaped : Terminated (i :: code) ∧ ∀ j ∈ code, j.phi? = none := by
    cases ends : i.ends with
    | true =>
      rw [if_pos ends] at fits
      obtain rfl : code = [] := fits
      exact ⟨⟨[], i, rfl, ends, fun j hj => (by cases hj)⟩, fun j hj => (by cases hj)⟩
    | false =>
      rw [ends] at fits
      exact ⟨fits.1.cons ends, fits.2⟩
  cases s with
  | fresh => exact shaped
  | inside => exact ⟨shaped.1, List.forall_mem_cons.mpr ⟨plain rfl, shaped.2⟩⟩
  | ended => exact absurd rfl h

/-- If all blocks are ended at the end, they have the shape of blocks. -/
theorem Spot.fits_of_after (code : List Line) : ∀ s : Spot, s.after code = some .ended →
    s.Fits (leading code) ∧ ∀ b ∈ blocksOf code, Spot.fresh.Fits b.code := by
  induction code with
  | nil =>
    intro s h
    obtain rfl : s = .ended := Option.some.inj h
    exact ⟨rfl, fun b hb => (by cases hb)⟩
  | cons line code ih =>
    intro s h
    rw [Spot.after_cons] at h
    obtain ⟨s', next, h⟩ := Option.bind_eq_some_iff.mp h
    obtain ⟨fits, blocks⟩ := ih s' h
    cases line with
    | label m =>
      cases s with
      | ended =>
        obtain rfl : Spot.fresh = s' := Option.some.inj next
        exact ⟨rfl, List.forall_mem_cons.mpr ⟨fits, blocks⟩⟩
      | fresh => cases next
      | inside => cases next
    | instr i =>
      cases s with
      | ended => cases next
      | fresh =>
        obtain rfl : _ = s' := Option.some.inj next
        exact ⟨Spot.fits_cons (by decide) (fun h => (by cases h)) fits, blocks⟩
      | inside =>
        rw [Spot.next] at next
        split at next
        · cases next
        · rename_i plain
          obtain rfl : _ = s' := Option.some.inj next
          rw [Bool.not_eq_true, Option.isSome_eq_false_iff, Option.isNone_iff_eq_none] at plain
          exact ⟨Spot.fits_cons (by decide) (fun _ => plain) fits, blocks⟩

/-- Instructions, each in its block, whose branches lead to some given blocks only and whose phis
know all the branches to the block that they stand in. -/
structure Closed (instrs : List (Label × Instr)) (started : List Label) : Prop where
  targets : ∀ p ∈ instrs, ∀ l ∈ p.2.targets, l ∈ started
  phis : started.Nodup → ∀ p ∈ instrs, ∀ incoming, p.2.phi? = some incoming →
    p.1 ∈ started ∧ (incoming.map Prod.snd).Perm (sources p.1 instrs)

namespace Closed
variable {instrs instrs' : List (Label × Instr)} {started started' : List Label}

theorem of_no_phi (targets : ∀ p ∈ instrs, ∀ l ∈ p.2.targets, l ∈ started)
    (none : ∀ p ∈ instrs, p.2.phi? = none) : Closed instrs started where
  targets
  phis := by
    intro _ p hp incoming phi
    rw [none p hp] at phi
    cases phi

theorem sources_eq_nil (h : Closed instrs started) {l : Label} (absent : l ∉ started) :
    sources l instrs = [] :=
  IR.sources_eq_nil fun p hp target => absent (h.targets p hp l target)

theorem append (h : Closed instrs started) (h' : Closed instrs' started') :
    Closed (instrs ++ instrs') (started ++ started') where
  targets := by
    intro p hp l hl
    rcases List.mem_append.mp hp with hp | hp
    · exact List.mem_append_left _ (h.targets p hp l hl)
    · exact List.mem_append_right _ (h'.targets p hp l hl)
  phis := by
    intro nodup p hp incoming phi
    obtain ⟨nodup₁, nodup₂, apart⟩ := List.nodup_append.mp nodup
    rw [sources_append]
    rcases List.mem_append.mp hp with hp | hp
    · obtain ⟨started, sources⟩ := h.phis nodup₁ p hp incoming phi
      rw [h'.sources_eq_nil fun again => apart _ started _ again rfl, List.append_nil]
      exact ⟨List.mem_append_left _ started, sources⟩
    · obtain ⟨started, sources⟩ := h'.phis nodup₂ p hp incoming phi
      rw [h.sources_eq_nil fun again => apart _ again _ started rfl, List.nil_append]
      exact ⟨List.mem_append_right _ started, sources⟩

theorem perm (h : Closed instrs started) (same : instrs.Perm instrs')
    (same' : started.Perm started') : Closed instrs' started' where
  targets := fun p hp l hl => same'.subset (h.targets p (same.symm.subset hp) l hl)
  phis := by
    intro nodup p hp incoming phi
    obtain ⟨started, sources⟩ :=
      h.phis (same'.nodup_iff.mpr nodup) p (same.symm.subset hp) incoming phi
    exact ⟨same'.subset started, sources.trans ((same.filter _).map _)⟩

end Closed

/-- A piece of code that is entered in one block and left in another one. -/
structure Linked (b : Label) (code : List Line) (b' : Label) : Prop where
  last : lastBlock b code = b'
  spots : ∀ s : Spot, s ≠ .ended → ∃ s', s.after code = some s' ∧ s' ≠ .ended
  closed : Closed (placed b code) (started code)

namespace Linked
variable {b b' b'' : Label} {code code' : List Line}

theorem nil (b : Label) : Linked b [] b where
  last := rfl
  spots := fun s hs => ⟨s, rfl, hs⟩
  closed := .of_no_phi (fun p hp => (by cases hp)) fun p hp => (by cases hp)

theorem instr (b : Label) {i : Instr} (goes : i.ends = false) (plain : i.phi? = none) :
    Linked b [.instr i] b where
  last := rfl
  spots := by
    intro s hs
    refine ⟨.inside, ?_, by decide⟩
    rw [Spot.after_cons, Spot.next_instr hs plain, if_neg (by rw [goes]; decide)]
    rfl
  closed := by
    refine .of_no_phi (fun p hp l hl => ?_) fun p hp => ?_
    · obtain rfl := List.mem_singleton.mp hp
      rw [targets_of_not_ends goes] at hl
      cases hl
    · obtain rfl := List.mem_singleton.mp hp
      exact plain

theorem append (h : Linked b code b') (h' : Linked b' code' b'') :
    Linked b (code ++ code') b'' where
  last := by rw [lastBlock_append, h.last, h'.last]
  spots := by
    intro s hs
    obtain ⟨s₁, after₁, hs₁⟩ := h.spots s hs
    obtain ⟨s₂, after₂, hs₂⟩ := h'.spots s₁ hs₁
    exact ⟨s₂, by rw [Spot.after_append, after₁]; exact after₂, hs₂⟩
  closed := by
    rw [placed_append, h.last, started_append]
    exact h.closed.append h'.closed

/-- A block that a piece ends in is ended, and the next one begins. -/
theorem spots_block (h : Linked b code b') {i : Instr} (ends : i.ends = true)
    (plain : i.phi? = none) {l : Label} {rest : List Line}
    (next : ∃ s', Spot.fresh.after rest = some s' ∧ s' ≠ .ended) :
    ∀ s : Spot, s ≠ .ended →
      ∃ s', s.after (code ++ .instr i :: .label l :: rest) = some s' ∧ s' ≠ .ended := by
  intro s hs
  obtain ⟨s₁, after₁, hs₁⟩ := h.spots s hs
  obtain ⟨s', after', hs'⟩ := next
  refine ⟨s', ?_, hs'⟩
  rw [Spot.after_append, after₁, Option.bind_some, Spot.after_cons, Spot.next_instr hs₁ plain,
    if_pos ends]
  exact after'

-- The constructs that have blocks of their own. Their branches and phis are closed by themselves,
-- and so are the pieces inside.

theorem and {m n rhs fin : Label} {v w : Value} {t : Nat} (ha : Linked b code m)
    (hb : Linked rhs code' n) :
    Linked b (code ++ .instr (.branch v rhs fin) :: .label rhs :: (code' ++
      [.instr (.jump fin), .label fin,
        .instr (.set t (.phi .i1 [(.bool false, m), (w, n)]))])) fin where
  last := by simp [lastBlock_append, lastBlock]
  spots := ha.spots_block rfl rfl
    (hb.spots_block rfl rfl ⟨.inside, rfl, by decide⟩ .fresh (by decide))
  closed := by
    have own : Closed [(m, .branch v rhs fin), (n, .jump fin),
        (fin, .set t (.phi .i1 [(.bool false, m), (w, n)]))] [rhs, fin] := by
      refine ⟨by simp [Instr.targets], fun nodup p hp incoming phi => ?_⟩
      have other : rhs ≠ fin := by simpa using nodup
      simp only [List.mem_cons, List.not_mem_nil, or_false] at hp
      rcases hp with rfl | rfl | rfl
      · cases phi
      · cases phi
      · obtain rfl := Option.some.inj phi
        refine ⟨by simp, ?_⟩
        simp [sources, Instr.targets]
    refine ((ha.closed.append hb.closed).append own).perm ?_ ?_
    · simp only [placed_append, placed, ha.last, hb.last, List.append_assoc]
      exact List.perm_middle.append_left _
    · simp only [started_append, started, List.append_assoc]
      exact List.perm_middle.append_left _

theorem ifElse {m n o yes no fin : Label} {v : Value} {code'' : List Line} (hc : Linked b code m)
    (hy : Linked yes code' n) (hn : Linked no code'' o) :
    Linked b (code ++ .instr (.branch v yes no) :: .label yes :: (code' ++ .instr (.jump fin) ::
      .label no :: (code'' ++ [.instr (.jump fin), .label fin]))) fin where
  last := by simp [lastBlock_append, lastBlock]
  spots := hc.spots_block rfl rfl (hy.spots_block rfl rfl
    (hn.spots_block rfl rfl ⟨.fresh, rfl, by decide⟩ .fresh (by decide)) .fresh (by decide))
  closed := by
    have own : Closed [(m, .branch v yes no), (n, .jump fin), (o, .jump fin)] [yes, no, fin] :=
      .of_no_phi (by simp [Instr.targets]) (by simp [Instr.phi?])
    refine (((hc.closed.append hy.closed).append hn.closed).append own).perm ?_ ?_
    · simp only [placed_append, placed, hc.last, hy.last, hn.last, List.append_assoc]
      refine .append_left _ (.trans ?_ List.perm_middle)
      refine .append_left _ (.trans List.perm_middle (.cons _ ?_))
      exact List.perm_middle
    · simp only [started_append, started, List.append_assoc]
      refine .append_left _ (.trans ?_ List.perm_middle)
      refine .append_left _ (.trans List.perm_middle (.cons _ ?_))
      exact List.perm_middle

theorem loop {m n cond body fin : Label} {v : Value} (hc : Linked cond code m)
    (hb : Linked body code' n) :
    Linked b (.instr (.jump cond) :: .label cond :: (code ++ .instr (.branch v body fin) ::
      .label body :: (code' ++ [.instr (.jump cond), .label fin]))) fin where
  last := by simp [lastBlock_append, lastBlock]
  spots := (nil b).spots_block rfl rfl (hc.spots_block rfl rfl
    (hb.spots_block rfl rfl ⟨.fresh, rfl, by decide⟩ .fresh (by decide)) .fresh (by decide))
  closed := by
    have own : Closed [(b, .jump cond), (m, .branch v body fin), (n, .jump cond)]
        [cond, body, fin] :=
      .of_no_phi (by simp [Instr.targets]) (by simp [Instr.phi?])
    refine ((own.append hc.closed).append hb.closed).perm ?_ ?_
    · simp only [placed_append, placed, hc.last, hb.last, List.cons_append, List.nil_append]
      refine .cons _ (.trans (.cons _ ?_) List.perm_middle.symm)
      rw [← List.append_assoc]
      exact (List.perm_append_singleton _ _).symm
    · simp only [started_append, started, List.cons_append, List.nil_append]
      refine .cons _ (.trans (.cons _ ?_) List.perm_middle.symm)
      rw [← List.append_assoc]
      exact (List.perm_append_singleton _ _).symm

/-- A check, and the block that stops the program if it fails. -/
theorem check {ok err : Label} {v : Value} {i : Instr} (goes : i.ends = false)
    (plain : i.phi? = none) :
    Linked b [.instr (.branch v ok err), .label err, .instr i, .instr .unreachable, .label ok]
      ok where
  last := rfl
  spots := (nil b).spots_block rfl rfl
    ((instr err goes plain).spots_block rfl rfl ⟨.fresh, rfl, by decide⟩ .fresh (by decide))
  closed := by
    have own : Closed [(b, .branch v ok err)] [err, ok] :=
      .of_no_phi (by simp [Instr.targets]) (by simp [Instr.phi?])
    have last : Closed [(err, .unreachable)] [] :=
      .of_no_phi (by simp [Instr.targets]) (by simp [Instr.phi?])
    exact ((own.append (instr err goes plain).closed).append last).perm (.refl _) (.refl _)

end Linked

theorem mem_placed {blocks : List Block} {b : Block} (hb : b ∈ blocks) {i : Instr}
    (hi : i ∈ b.code) : (b.label, i) ∈ blocks.flatMap Block.placed :=
  List.mem_flatMap.mpr ⟨b, hb, List.mem_map_of_mem hi⟩

theorem predecessors_sublist (blocks : List Block) (l : Label) :
    (predecessors blocks l).Sublist (labelsOf blocks) := List.filter_sublist.map _

/-- The lines of a function around the code of its body. -/
def wholeBody (code : List Line) (last : Instr) : List Line :=
  .label .entry :: (code ++ [.instr last])

namespace Linked
variable {code : List Line} {b : Label} {last : Instr}

theorem placed_wholeBody (h : Linked .entry code b) :
    (blocksOf (wholeBody code last)).flatMap Block.placed = placed .entry code ++ [(b, last)] := by
  have placed := placed_eq .entry (wholeBody code last)
  change IR.placed .entry (code ++ [.instr last]) = _ at placed
  rw [placed_append, h.last] at placed
  exact placed.symm

section Last
variable (h : Linked .entry code b) (ends : last.ends = true) (final : last.targets = [])
  (plain : last.phi? = none)
include h ends plain

theorem fits_wholeBody : ∀ c ∈ blocksOf (wholeBody code last), Spot.fresh.Fits c.code := by
  obtain ⟨s, after, hs⟩ := h.spots .fresh (by decide)
  have ended : Spot.ended.after (wholeBody code last) = some .ended := by
    rw [wholeBody, Spot.after_cons]
    change Spot.fresh.after _ = _
    rw [Spot.after_append, after, Option.bind_some, Spot.after_cons, Spot.next_instr hs plain,
      if_pos ends]
    rfl
  exact (Spot.fits_of_after _ .ended ended).2

include final

/-- The last instruction leads nowhere, so the piece has all the branches. -/
theorem predecessors_wholeBody (l : Label) :
    predecessors (blocksOf (wholeBody code last)) l = sources l (placed .entry code) := by
  have none : sources l [(b, last)] = [] := by
    refine IR.sources_eq_nil fun p hp => ?_
    obtain rfl := List.mem_singleton.mp hp
    rw [final]
    exact List.not_mem_nil
  rw [← sources_blocks fun c hc => (h.fits_wholeBody ends plain c hc).1, h.placed_wholeBody,
    sources_append, none, List.append_nil]

theorem mem_placed_wholeBody {c : Block} (hc : c ∈ blocksOf (wholeBody code last)) {i : Instr}
    (hi : i ∈ c.code) (some : i.targets ≠ [] ∨ i.phi? ≠ none) :
    (c.label, i) ∈ placed .entry code := by
  have mem := mem_placed hc hi
  rw [h.placed_wholeBody] at mem
  rcases List.mem_append.mp mem with mem | mem
  · exact mem
  · obtain ⟨_, rfl⟩ := Prod.mk.inj (List.mem_singleton.mp mem)
    exact absurd some (by simp [final, plain])

variable (once : (started (wholeBody code last)).Nodup)
include once

theorem phis_wholeBody {c : Block} (hc : c ∈ blocksOf (wholeBody code last)) {i : Instr}
    (hi : i ∈ c.code) {incoming : List (Value × Label)} (phi : i.phi? = some incoming) :
    (incoming.map Prod.snd).Perm (predecessors (blocksOf (wholeBody code last)) c.label) := by
  have once' : (started code).Nodup := by
    rw [wholeBody, started, started_append] at once
    exact (List.nodup_append.mp (List.nodup_cons.mp once).2).1
  have mem := h.mem_placed_wholeBody ends final plain hc hi (Or.inr (by simp [phi]))
  rw [h.predecessors_wholeBody ends final plain]
  exact (h.closed.phis once' _ mem incoming phi).2

/-- A piece that is entered at the start of a function and followed by its last instruction. -/
theorem wellFormed (header : Header) (finished : Bool) :
    Function.WellFormed ⟨header, wholeBody code last, finished⟩ := by
  have labels := labelsOf_blocksOf (wholeBody code last)
  have named : ∀ l ∈ started (wholeBody code last), (started (wholeBody code last)).count l = 1 :=
    fun l hl => Nat.le_antisymm (List.nodup_iff_count.mp once l) (List.count_pos_iff.mpr hl)
  have fits := h.fits_wholeBody ends plain
  have predecessors : ∀ l, (predecessors (blocksOf (wholeBody code last)) l).Sublist
      (started (wholeBody code last)) := fun l => labels ▸ predecessors_sublist _ l
  exact
    { split := (leading_append_blocks (wholeBody code last)).symm
      entry := rfl
      terminated := fun c hc => (fits c hc).1
      named := by
        intro c hc i hi l hl
        rw [Function.blocks, labels]
        refine named l ?_
        rcases List.mem_append.mp hl with hl | hl
        · have mem := h.mem_placed_wholeBody ends final plain hc hi (Or.inl (List.ne_nil_of_mem hl))
          rw [wholeBody, started, started_append]
          exact List.mem_cons_of_mem _ (List.mem_append_left _ (h.closed.targets _ mem l hl))
        · cases phi : i.phi? with
          | none =>
            rw [phi] at hl
            cases hl
          | some incoming =>
            rw [phi, Option.getD_some] at hl
            have perm := h.phis_wholeBody ends final plain once hc hi phi
            exact (predecessors c.label).subset (perm.subset hl)
      phiFirst := fun c hc => (fits c hc).2
      phis := by
        intro c hc i hi incoming phi
        have perm := h.phis_wholeBody ends final plain once hc hi phi
        exact ⟨perm.nodup_iff.mpr (once.sublist (predecessors c.label)), perm⟩ }

end Last

end Linked

end MiniJava.IR
