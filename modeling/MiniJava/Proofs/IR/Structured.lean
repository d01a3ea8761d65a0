import MiniJava.Proofs.IR.Region

/-!
# Structured functions

A function reserves its stack slots, runs a region and returns a value that is known behind it. Its
blocks are a control-flow graph, its instructions are typed, and its definitions dominate their
uses.
-/
namespace MiniJava.IR

/-- The lines that reserve stack slots for values of some types. -/
def reserve (slots : Names) : List Line := slots.map fun x => .instr (.alloca x.1 x.2)

theorem declared_reserve (slots : Names) :
    declared (reserve slots) = slots.map fun x => (x.1, .ptr x.2) := by
  induction slots with
  | nil => rfl
  | cons x slots ih => exact congrArg ((x.1, .ptr x.2) :: ·) ih

theorem started_reserve (slots : Names) : started (reserve slots) = [] := by
  induction slots with
  | nil => rfl
  | cons x slots ih => exact ih

theorem temporaries_reserve (slots : Names) : temporaries (reserve slots) = [] := by
  induction slots with
  | nil => rfl
  | cons x slots ih => exact ih

theorem Linked.reserve (b : Label) (slots : Names) : Linked b (reserve slots) b := by
  induction slots with
  | nil => exact .nil b
  | cons x slots ih => exact (Linked.instr b rfl rfl).append ih

theorem Kept.reserve (claims : List Claim) (b : Label) (set : List Nat) (slots : Names) :
    Kept claims b set (reserve slots) b set := by
  induction slots with
  | nil => exact .nil b set
  | cons x slots ih =>
    exact .instr ⟨fun n hn => (by cases hn), fun _ h => (by cases h), fun l hl => (by cases hl)⟩ ih

theorem LinesTyped.reserve {names slots : Names} (sub : declared (reserve slots) ⊆ names) :
    LinesTyped names (reserve slots) := by
  rw [declared_reserve] at sub
  intro i hi
  obtain ⟨x, hx, same⟩ := List.mem_map.mp hi
  obtain rfl := Line.instr.inj same
  exact .named (sub (List.mem_map_of_mem hx))

/-- A function with its slots, its region, where that is left, and the value that is returned. -/
structure Structured (globals : Names) (h : Header) (slots : Names) (code : List Line) (q : Point)
    (v : Value) : Prop where
  region : Region ⟨0, .entry, h.names globals ++ declared (reserve slots)⟩ code q
  result : v.HasType q.known h.result
  distinct : ((h.names globals ++ declared (reserve slots)).map Prod.fst).Nodup
  lasting : ∀ x ∈ h.names globals ++ declared (reserve slots), ∀ n, x.1 ≠ .temp n

def structuredBody (h : Header) (slots : Names) (code : List Line) (v : Value) : List Line :=
  wholeBody (reserve slots ++ code) (.ret h.result v)

namespace Structured
variable {globals slots : Names} {h : Header} {code : List Line} {q : Point} {v : Value}
  (s : Structured globals h slots code q v)
include s

theorem linked : Linked .entry (reserve slots ++ code) q.block :=
  (Linked.reserve .entry slots).append s.region.linked

theorem numbered : temporaries (structuredBody h slots code v) =
    List.range (temporaries (structuredBody h slots code v)).length := by
  obtain ⟨n, _, numbers⟩ := s.region.temporaries
  have all : temporaries (structuredBody h slots code v) = List.range n := by
    rw [structuredBody, wholeBody, temporaries_cons, temporaries_append, temporaries_append,
      temporaries_reserve, numbers, List.range_eq_range']
    exact List.append_nil _
  rw [all, List.length_range]

section Once
variable (once : (started (structuredBody h slots code v)).Nodup) (finished : Bool)
include once

theorem wellFormed : Function.WellFormed ⟨h, structuredBody h slots code v, finished⟩ :=
  s.linked.wellFormed rfl rfl rfl once h finished

theorem claimed : ∃ claims, Claimed claims ⟨h, structuredBody h slots code v, finished⟩ := by
  have split : started (structuredBody h slots code v) = .entry :: started code := by
    rw [structuredBody, wholeBody, started, started_append, started_append, started_reserve]
    exact congrArg _ (List.append_nil _)
  have covered : Point.Covered ⟨0, .entry, h.names globals ++ declared (reserve slots)⟩ [] :=
    fun n ty hn => absurd rfl (s.lasting _ hn n)
  obtain ⟨claims, set, labels, kept, _, covered⟩ := s.region.claimable (split ▸ once) [] covered
  generalize hall : Claim.mk .entry [] [] :: claims = all
  have sub : claims ⊆ all := hall ▸ List.subset_cons_self _ _
  have start : ⟨.entry, [], []⟩ ∈ all := hall ▸ List.mem_cons_self
  have last : Keeping all q.block set (.ret h.result v) :=
    covered.keeping (List.forall_mem_singleton.mpr ⟨_, s.result⟩) rfl fun l hl => (by cases hl)
  have whole : Kept all .entry [] (structuredBody h slots code v) q.block set :=
    .label start (((Kept.reserve all .entry [] slots).append (kept.mono sub)).append
      (.instr last (.nil _ _)))
  refine ⟨all, ?_, ⟨_, start, rfl, rfl⟩, whole.blocks.2⟩
  rw [← hall, List.map_cons, labels, ← split]
  exact once

theorem singleAssignment :
    Function.SingleAssignment ⟨h, structuredBody h slots code v, finished⟩ := by
  obtain ⟨claims, claimed⟩ := s.claimed once finished
  refine claimed.singleAssignment (s.wellFormed once finished) s.numbered ?_
  rw [Function.blocks, labelsOf_blocksOf]
  exact once

end Once

omit s in
theorem declared_body : declared (structuredBody h slots code v) =
    declared (reserve slots) ++ declared code := by
  rw [structuredBody, wholeBody, declared_cons, declared_append, declared_append]
  exact List.append_nil _

theorem distinct_body :
    ((h.names globals ++ declared (structuredBody h slots code v)).map Prod.fst).Nodup := by
  obtain ⟨n, _, numbers⟩ := s.region.temporaries
  have temps : ((declared code).map Prod.fst).Sublist ((List.range' 0 n).map .temp) :=
    numbers ▸ s.region.declared_sublist
  rw [declared_body, ← List.append_assoc, List.map_append]
  refine List.nodup_append.mpr ⟨s.distinct, ?_, ?_⟩
  · exact ((List.nodup_range' 1).map fun _ _ same => Value.temp.inj same).sublist temps
  · intro a ha b hb same
    obtain ⟨x, hx, rfl⟩ := List.mem_map.mp ha
    obtain ⟨i, _, rfl⟩ := List.mem_map.mp (temps.subset hb)
    exact s.lasting x hx i same

theorem typed (finished : Bool) :
    Function.Typed globals ⟨h, structuredBody h slots code v, finished⟩ where
  distinct := s.distinct_body
  instrs := by
    change LinesTyped (_ ++ declared (structuredBody h slots code v))
      (structuredBody h slots code v)
    rw [declared_body, ← List.append_assoc]
    obtain ⟨known, inside⟩ := s.region.typed (List.subset_append_left _ _)
      (List.subset_append_right _ _)
    refine .label _ (.append (.append (.reserve ?_) inside) (.instr (s.result.mono known) .nil))
    exact List.subset_append_of_subset_left _ (List.subset_append_right _ _)
  returns := by
    intro ty w hi
    rw [structuredBody, wholeBody] at hi
    simp only [List.mem_cons, reduceCtorEq, List.mem_append, false_or, Line.instr.injEq,
      List.not_mem_nil, or_false] at hi
    rcases hi with (slot | inside) | same
    · obtain ⟨x, _, same⟩ := List.mem_map.mp slot
      cases same
    · exact absurd inside (s.region.not_ret ty w)
    · exact (Instr.ret.inj same).1

end Structured

end MiniJava.IR
