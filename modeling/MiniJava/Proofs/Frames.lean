import MiniJava.Proofs.Accepted
import MiniJava.Proofs.Class.Raised
import MiniJava.Proofs.Layout.Starts
import MiniJava.Proofs.Traversal

/-!
# Each pass has its own part of the class table

The declaration pass fixes the classes with their members. After it the body pass sets marks of
initialization, wherever in a statement and in whatever class the variable is, and a layout writes
offsets and slots. Neither touches anything else.
-/
namespace MiniJava

open ClassTable Check

namespace Check
variable {α β : Type}

/-- Nothing but marks is set in the class table, whatever is reported. -/
def Raises (x : CheckM α) : Prop := ∀ st : State, st.table.Raised (x st).2.table

namespace Raises

theorem pure (a : α) : Raises (Pure.pure a : CheckM α) := fun st => .refl st.table

theorem take (find : ClassTable → Found α) : Raises (take find) := fun st => .refl st.table

theorem mark (p : Place) (v : VarRef) : Raises (mark p v) :=
  fun st => .markInitialized st.table p v

theorem bind {x : CheckM α} {f : α → CheckM β} (hx : Raises x) (hf : ∀ a, Raises (f a)) :
    Raises (x >>= f) :=
  fun st => (hx st).trans (hf (x st).1 (x st).2)

theorem ifFull {x : CheckM α} (hx : Raises x) (a : α) :
    Raises (do if ← isFull then return a else x) := by
  intro st
  rw [ifFull_apply]
  split
  · exact .refl st.table
  · exact hx st

end Raises

/-- Only a mark changes the class table. -/
theorem passes_raises : Passes Raises where
  pure := .pure
  bind := .bind
  ifFull a hx := .ifFull hx a
  mark := .mark
  typeIn _ _ := .take _
  cond _ _ _ := .take _
  resolve _ _ _ := .take _
  stored _ _ _ := .take _
  arrayAssign _ _ _ _ _ := .take _
  printed _ _ := .take _
  result _ _ _ := .take _

/-- The class table after the declaration pass. -/
def declared (o : CheckOptions) (p : Program .bare) : ClassTable :=
  let h := hierarchy o.maxErrors p
  (declarations o.strict h.program h.table h.report).1

theorem declared_of_ready? {o : CheckOptions} {p : Program .bare} {q : Program .registered}
    {st : State} (h : ready? o p = some (q, st)) : st.table = declared o p := by
  simp only [ready?, Option.ite_none_right_eq_some, Option.some.injEq, Prod.mk.injEq] at h
  obtain ⟨_, _, rfl⟩ := h
  rfl

theorem declared_wellFormed (o : CheckOptions) (p : Program .bare) : (declared o p).WellFormed :=
  (hierarchy_wellFormed o.maxErrors p).of_sameOutline (declarations_outline _ _ _ _).symm

end Check

namespace Layout
variable {t : ClassTable} (wf : t.WellFormed) (s : Strategy)
include wf

theorem get?_assign_of_main {c : ClassId} (main : t.isMain c = true) :
    (assign s t).get? c = t.get? c := by
  rw [get?_assign wf s c]
  cases hk : t.get? c with
  | none => rfl
  | some k =>
    have main : k.isMain = true := by simpa [isMain, hk] using main
    rw [Option.map_some, placed_of_main main]

theorem offset_of_mem {c : ClassId} {f : Field} (hf : f ∈ (assign s t).fields c) :
    ∃ n, f.offset = some n := by
  obtain ⟨i, hi⟩ := List.mem_iff_getElem?.mp hf
  exact Option.isSome_iff_exists.mp (offset_assign wf s (r := ⟨c, i⟩) hi)

theorem slot_of_mem {c : ClassId} {m : Method} (hm : m ∈ (assign s t).methods c) :
    ∃ n, m.slotOffset = some n ∧ 8 ∣ n := by
  have same := (sameDeclarations_assign wf s).outline
  obtain ⟨i, hi⟩ := List.mem_iff_getElem?.mp hm
  obtain ⟨k, hk, _⟩ := get?_of_method? (r := ⟨c, i⟩) hi
  have main : t.isMain c = false := by
    cases main : t.isMain c with
    | false => rfl
    | true =>
      obtain rfl := wf.isMain_iff.mp main
      rw [(wf.of_sameOutline same.symm).main_methods] at hm
      cases hm
  obtain ⟨bound, slotted⟩ := exists_slotted_assign wf s (same.size ▸ lt_size_of_get? hk) main
  obtain ⟨n, slot, _, dvd⟩ := slotted.apart.placed m
    (mem_visibleMethods.mpr ⟨c, mem_chain_self _ c, hm⟩)
  exact ⟨n, slot, dvd⟩

end Layout

/-- For a program that is accepted, the body pass only sets marks in the table that the declaration
pass has left. A layout of it leaves the main class alone, and changes nothing but the offsets and
slots of the other classes: every field gets an offset and every method a slot, a multiple of 8. So
the declarations are the same at the end. -/
theorem passes_keep_declarations {o : CheckOptions} {p : Program .bare} {c : Checked}
    (accepted : (check o p).result = .ok c) :
    (declared o p).Raised c.table ∧
    ∀ s, (∀ i, c.table.isMain i = true →
        (Layout.compute s c.table).1.get? i = c.table.get? i) ∧
      (Layout.compute s c.table).1.unplaced = c.table.unplaced ∧
      (∀ i, c.table.isMain i = false →
        (∀ f ∈ (Layout.compute s c.table).1.fields i, ∃ n, f.offset = some n) ∧
        ∀ m ∈ (Layout.compute s c.table).1.methods i, ∃ n, m.slotOffset = some n ∧ 8 ∣ n) ∧
      SameDeclarations (Layout.compute s c.table).1 (declared o p) := by
  obtain ⟨q, st, ready, _, rfl⟩ := check_eq_ok_iff.mp accepted
  have raised := passes_raises.bodies q st
  rw [declared_of_ready? ready] at raised
  have same := raised.sameDeclarations
  have wf := (declared_wellFormed o p).of_sameOutline same.outline.symm
  refine ⟨raised, fun s => ⟨fun i main => Layout.get?_assign_of_main wf s main,
    Layout.unplaced_assign s _, fun i _ => ⟨fun f => Layout.offset_of_mem wf s,
      fun m => Layout.slot_of_mem wf s⟩, (Layout.sameDeclarations_assign wf s).trans same⟩⟩

theorem passes_keep_declarations_branches :
    ∃ c, (check {} branches).result = .ok c ∧ (declared {} branches).Raised c.table ∧
      ∀ s, SameDeclarations (Layout.compute s c.table).1 (declared {} branches) := by
  obtain ⟨c, accepted⟩ := exists_of_isOk (x := (check {} branches).result) (by decide +kernel)
  obtain ⟨raised, layouts⟩ := passes_keep_declarations accepted
  exact ⟨c, accepted, raised, fun s => (layouts s).2.2.2⟩

end MiniJava
