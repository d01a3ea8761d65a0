import MiniJava.Proofs.Layout.Counters
import MiniJava.Proofs.Layout.Dispatch

/-!
# Room in objects

The fields that a class sees end below its counter, and no two of them have a byte in common. The
fields of a class are placed where its parent has ended, which is behind everything that the parent
sees; and a counter that other classes of the tree draw from as well only grows.

So what is asked for an object of a class has room for all fields that the class sees, behind the
header and in front of the spare one. The sum of their sizes may be less than that: with a counter
for a whole tree, other branches of the tree lie in between.
-/
namespace MiniJava

/-- One of the fields ends before the other one begins. -/
def Field.Apart (f g : Field) : Prop :=
  ∀ a b, f.offset = some a → g.offset = some b → a + f.ty.size ≤ b ∨ b + g.ty.size ≤ a

theorem Field.Apart.symm {f g : Field} (h : f.Apart g) : g.Apart f :=
  fun a b ha hb => (h b a hb ha).symm

namespace Layout

open ClassTable

/-- Every field ends at the bound or before, and no two have a byte in common. -/
structure Spaced (fs : List Field) (bound : Nat) : Prop where
  placed : ∀ f ∈ fs, ∃ o, f.offset = some o ∧ o + f.ty.size ≤ bound
  apart : fs.Pairwise Field.Apart

theorem Spaced.nil (bound : Nat) : Spaced [] bound := ⟨nofun, .nil⟩

theorem Spaced.mono {fs : List Field} {bound bound' : Nat} (h : Spaced fs bound)
    (le : bound ≤ bound') : Spaced fs bound' := by
  refine ⟨fun f hf => ?_, h.apart⟩
  obtain ⟨o, ho, below⟩ := h.placed f hf
  exact ⟨o, ho, Nat.le_trans below le⟩

/-- The order of the fields does not matter. -/
theorem Spaced.perm {fs gs : List Field} {bound : Nat} (h : Spaced fs bound) (same : fs.Perm gs) :
    Spaced gs bound :=
  ⟨fun f hf => h.placed f (same.mem_iff.mpr hf), h.apart.perm same Field.Apart.symm⟩

/-- There is room at the bound. -/
theorem Spaced.cons {fs : List Field} {bound : Nat} (h : Spaced fs bound) {f : Field}
    (offset : f.offset = some bound) : Spaced (f :: fs) (bound + f.ty.size) := by
  refine ⟨List.forall_mem_cons.mpr ⟨⟨bound, offset, Nat.le_refl _⟩, ?_⟩, .cons ?_ h.apart⟩
  · exact (h.mono (Nat.le_add_right _ _)).placed
  · intro g hg a b ha hb
    obtain ⟨o, ho, below⟩ := h.placed g hg
    obtain rfl := Option.some.inj (offset.symm.trans ha)
    obtain rfl := Option.some.inj (ho.symm.trans hb)
    exact Or.inr below

theorem le_placeFields (fs : List Field) : ∀ start, start ≤ (placeFields start fs).2 := by
  induction fs with
  | nil => exact Nat.le_refl
  | cons f fs ih => exact fun start => Nat.le_trans (Nat.le_add_right _ _) (ih _)

/-- The fields of a class join those that it sees above. -/
theorem placeFields_spaced (fs : List Field) :
    ∀ (above : List Field) (start : Nat), Spaced above start →
      Spaced ((placeFields start fs).1 ++ above) (placeFields start fs).2 := by
  induction fs with
  | nil => exact fun above start h => h
  | cons f fs ih =>
    intro above start h
    have first : Spaced ({ f with offset := some start } :: above) (start + f.ty.size) :=
      h.cons (f := { f with offset := some start }) rfl
    exact (ih _ _ first).perm List.perm_middle

/-- The classes below `n` see fields that are spaced below their counters. -/
def SpacedBelow (s : Strategy) (t : ClassTable) (n : Nat) (st : State) : Prop :=
  ∀ c < n, t.isMain c = false →
    Spaced (st.table.visibleFields c) (st.at (keeper s t c)).field

section Class
variable {s : Strategy} {t : ClassTable} {st : State} {n : Nat}

/-- Where a class starts, all that its parent sees has ended. -/
theorem SpacedBelow.above (wf : t.WellFormed) (h : SpacedBelow s t n st) {p : ClassId}
    (hp : t.parent? n = some p) :
    Spaced (st.table.visibleFields p) (st.at (source s t n)).field := by
  rw [source_of_parent wf.forest hp]
  exact h p (wf.forest hp) (wf.parent_not_main hp)

/-- What the next class sees is spaced below where it ends. -/
theorem SpacedBelow.next (wf : t.WellFormed) (known : Assigned s t n st) (hn : n < t.size)
    (main : t.isMain n = false) (h : SpacedBelow s t n st) :
    Spaced ((assignClass s st n).table.visibleFields n) (fieldsOf s st n).2 := by
  have same := known.same.outline
  have same' := (sameDeclarations_assignClass s st n).outline
  have forest : st.table.Forest := (wf.of_sameOutline same.symm).forest
  have fields := fields_assignClass (s := s) ((same.isMain n).trans main) (same.size ▸ hn)
  cases hp : t.parent? n with
  | none =>
    have top : (assignClass s st n).table.parent? n = none := by
      rw [same'.parent?, same.parent?, hp]
    rw [visibleFields, flatMap_chain_of_top top, fields, if_pos rfl,
      ← List.append_nil (fieldsOf ..).1]
    exact placeFields_spaced _ [] _ (.nil _)
  | some p =>
    have parent : st.table.parent? n = some p := (same.parent? n).trans hp
    have parent' : (assignClass s st n).table.parent? n = some p := (same'.parent? n).trans parent
    have forest' : (assignClass s st n).table.Forest :=
      fun hq => forest ((same'.parent? _).symm.trans hq)
    have unchanged : ∀ a ∈ st.table.chain p,
        (assignClass s st n).table.fields a = st.table.fields a := by
      intro a ha
      rw [fields, if_neg]
      exact Nat.ne_of_lt (Nat.lt_of_le_of_lt (forest.le_of_mem_chain ha) (forest parent))
    have above := h.above wf hp
    rw [← source_congr same] at above
    rw [visibleFields, forest'.flatMap_chain_of_parent parent', fields, if_pos rfl,
      same'.flatMap_chain unchanged]
    exact placeFields_spaced _ _ _ above

/-- What the classes before it see stays where it is, and no counter goes back. -/
theorem SpacedBelow.kept (wf : t.WellFormed) (known : Assigned s t n st) (hn : n < t.size)
    (main : t.isMain n = false) (h : SpacedBelow s t n st) {c : Nat} (hc : c < n)
    (other : t.isMain c = false) :
    Spaced ((assignClass s st n).table.visibleFields c)
      ((assignClass s st n).at (keeper s t c)).field := by
  have same := known.same.outline
  have same' := (sameDeclarations_assignClass s st n).outline
  have forest : st.table.Forest := (wf.of_sameOutline same.symm).forest
  have unchanged : ∀ a ∈ st.table.chain c,
      (assignClass s st n).table.fields a = st.table.fields a := by
    intro a ha
    rw [fields_assignClass ((same.isMain n).trans main) (same.size ▸ hn), if_neg]
    exact Nat.ne_of_lt (Nat.lt_of_le_of_lt (forest.le_of_mem_chain ha) hc)
  rw [visibleFields, same'.flatMap_chain unchanged]
  refine (h c hc other).mono ?_
  rw [known.at_next wf hn main]
  split
  · rename_i hk
    rw [fieldsOf, source_congr same, source_eq_of_keeper_eq (Nat.ne_of_lt hc) hk]
    exact le_placeFields _ _
  · exact Nat.le_refl _

theorem SpacedBelow.step (wf : t.WellFormed) (known : Assigned s t n st) (hn : n < t.size)
    (h : SpacedBelow s t n st) : SpacedBelow s t (n + 1) (assignClass s st n) := by
  intro c hc other
  cases main : t.isMain n with
  | true =>
    rw [assignClass_of_main ((known.same.outline.isMain n).trans main)]
    refine h c (Nat.lt_of_le_of_ne (Nat.le_of_lt_succ hc) fun heq => ?_) other
    rw [heq, main] at other
    cases other
  | false =>
    rcases Nat.lt_or_eq_of_le (Nat.le_of_lt_succ hc) with hlt | rfl
    · exact h.kept wf known hn main hlt other
    · rw [known.at_next wf hn main, if_pos rfl]
      exact h.next wf known hn main

end Class

theorem spacedBelow {t : ClassTable} (wf : t.WellFormed) (s : Strategy) (n : Nat) :
    n ≤ t.size → SpacedBelow s t n (assignBelow s t n) := by
  induction n with
  | zero => exact fun _ c hc => absurd hc (Nat.not_lt_zero c)
  | succ n ih =>
    intro hn
    rw [assignBelow, List.range_succ, List.foldl_append]
    exact (ih (Nat.le_of_succ_le hn)).step wf (assigned_below wf s n (Nat.le_of_succ_le hn)) hn

/-- What a class sees is spaced once all classes are laid out. -/
theorem exists_spaced_assign {t : ClassTable} (wf : t.WellFormed) (s : Strategy) {c : ClassId}
    (hc : c < t.size) (main : t.isMain c = false) :
    ∃ bound, Spaced ((assign s t).visibleFields c) bound :=
  ⟨_, spacedBelow wf s t.size (Nat.le_refl _) c hc main⟩

end Layout

/-- Where a field begins in an object. -/
def Field.start? (f : Field) : Option Nat := f.offset.map (Layout.headerSize + ·)

namespace Layout

open ClassTable

/-- The fields that a class sees lie in an object of so many bytes, between two headers and without
having a byte in common. -/
structure Holds (t : ClassTable) (d : ClassId) (bytes : Nat) : Prop where
  headers : headerSize + headerSize ≤ bytes
  placed : ∀ f ∈ t.visibleFields d, ∃ start, f.start? = some start ∧ headerSize ≤ start ∧
    start + f.ty.size + headerSize ≤ bytes
  apart : (t.visibleFields d).Pairwise Field.Apart

variable {t : ClassTable}

theorem le_regionEnd (fs : List Field) :
    ∀ {stop n : Nat}, regionEnd stop fs = .ok n → stop ≤ n := by
  induction fs with
  | nil =>
    intro stop n h
    exact Nat.le_of_eq (Except.ok.inj h)
  | cons f fs ih =>
    intro stop n h
    rw [regionEnd] at h
    split at h
    · cases h
    · exact Nat.le_trans (Nat.le_max_left _ _) (ih h)

/-- No field ends behind the end of the region. -/
theorem end_le_regionEnd (fs : List Field) :
    ∀ {stop n : Nat}, regionEnd stop fs = .ok n → ∀ f ∈ fs, ∀ o, f.offset = some o →
      o + f.ty.size ≤ n := by
  induction fs with
  | nil => exact fun _ f hf => (by cases hf)
  | cons g fs ih =>
    intro stop n h f hf o ho
    rw [regionEnd] at h
    split at h
    · cases h
    · rename_i o' ho'
      rcases List.mem_cons.mp hf with rfl | hf
      · obtain rfl := Option.some.inj (ho.symm.trans ho')
        exact Nat.le_trans (Nat.le_max_right _ _) (le_regionEnd fs h)
      · exact ih h f hf o ho

section Allocated
variable {c : ClassId} {l : ClassLayout} (h : ofClass t c = .ok l)
include h

theorem headers_le_allocSize : headerSize + headerSize ≤ l.allocSize := by
  obtain ⟨stop, _, h⟩ := exists_of_bind_eq_ok h
  obtain ⟨v, _, h⟩ := exists_of_bind_eq_ok h
  obtain rfl := Except.ok.inj h
  exact Nat.add_le_add_right
    (Nat.le_trans (Nat.le_add_right _ _) (Nat.le_max_left _ _)) headerSize

/-- What is asked for reaches one header further than the end of any field. -/
theorem end_le_allocSize {f : Field} (hf : f ∈ t.visibleFields c) {o : Nat}
    (ho : f.offset = some o) : headerSize + (o + f.ty.size) + headerSize ≤ l.allocSize := by
  obtain ⟨stop, hstop, h⟩ := exists_of_bind_eq_ok h
  obtain ⟨v, _, h⟩ := exists_of_bind_eq_ok h
  obtain rfl := Except.ok.inj h
  have inside := end_le_regionEnd _ hstop f hf o ho
  exact Nat.add_le_add_right
    (Nat.le_trans (Nat.add_le_add_left inside headerSize) (Nat.le_max_right _ _)) headerSize

end Allocated

theorem ofClass_of_ofClasses {cs : List ClassId} :
    ∀ {ls : Layout}, ofClasses t cs = .ok ls → ∀ {i : Nat} {l : ClassLayout}, ls[i]? = some l →
      ∃ c, cs[i]? = some c ∧ ofClass t c = .ok l := by
  induction cs with
  | nil =>
    intro ls h i l hl
    obtain rfl := Except.ok.inj h
    cases hl
  | cons c cs ih =>
    intro ls h i l hl
    obtain ⟨k, hk, h⟩ := exists_of_bind_eq_ok h
    obtain ⟨ks, hks, h⟩ := exists_of_bind_eq_ok h
    obtain rfl := Except.ok.inj h
    cases i with
    | zero => exact ⟨c, rfl, Option.some.inj hl ▸ hk⟩
    | succ i => exact ih hks hl

/-- The layout of a class stands under its number. -/
theorem ofClass_of_compute {s : Strategy} {u : ClassTable} {layout : Layout}
    (h : compute s t = (u, .ok layout)) {d : ClassId} {l : ClassLayout}
    (hl : layout[d]? = some l) : d < u.size ∧ ofClass u d = .ok l := by
  obtain ⟨rfl, computed⟩ := Prod.mk.inj h
  obtain ⟨c, hc, hl⟩ := ofClass_of_ofClasses computed hl
  obtain ⟨hlt, rfl⟩ := List.getElem?_eq_some_iff.mp hc
  rw [ids, List.length_range] at hlt
  rw [show (assign s t).ids[d] = d from List.getElem_range _] at hl
  exact ⟨hlt, hl⟩

theorem Spaced.holds {d : ClassId} {l : ClassLayout} {bound : Nat}
    (h : Spaced (t.visibleFields d) bound) (hl : ofClass t d = .ok l) : Holds t d l.allocSize := by
  refine ⟨headers_le_allocSize hl, fun f hf => ?_, h.apart⟩
  obtain ⟨o, ho, _⟩ := h.placed f hf
  refine ⟨headerSize + o, by rw [Field.start?, ho]; rfl, Nat.le_add_right _ _, ?_⟩
  rw [Nat.add_assoc headerSize]
  exact end_le_allocSize hl hf ho

/-- Every class but the main class is asked for with room for its fields. -/
theorem holds_of_compute (wf : t.WellFormed) {s : Strategy} {u : ClassTable} {layout : Layout}
    (h : compute s t = (u, .ok layout)) {d : ClassId} {l : ClassLayout}
    (hl : layout[d]? = some l) (main : u.isMain d = false) : Holds u d l.allocSize := by
  obtain ⟨hlt, hl⟩ := ofClass_of_compute h hl
  obtain ⟨rfl, _⟩ := Prod.mk.inj h
  have same := (sameDeclarations_assign wf s).outline
  obtain ⟨bound, spaced⟩ :=
    exists_spaced_assign wf s (same.size ▸ hlt) ((same.isMain d).symm.trans main)
  exact spaced.holds hl

/-- What an ancestor sees is among what a class sees. -/
theorem visibleFields_subset (forest : t.Forest) {d a : ClassId} (ha : a ∈ t.chain d) :
    t.visibleFields a ⊆ t.visibleFields d := by
  intro f hf
  obtain ⟨b, hb, hf⟩ := List.mem_flatMap.mp hf
  have down := (forest.mem_chain_iff.mp ha).trans (forest.mem_chain_iff.mp hb)
  exact List.mem_flatMap.mpr ⟨b, forest.mem_chain_iff.mpr down, hf⟩

end Layout

end MiniJava
