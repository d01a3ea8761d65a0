import Mathlib.Logic.ExistsUnique
import MiniJava.Proofs.Accepted
import MiniJava.Proofs.Layout.Dispatch
import MiniJava.Proofs.Layout.Packed
import MiniJava.Proofs.Limits.Idle

/-!
# Compact layouts

Where every class starts at the end of its parent, an object is nothing but its header and its
fields, those of the topmost ancestor first. The table of methods of a class has one entry for each
name that the class sees, and begins with the table of its parent: an override takes the place of
what it overrides, with the same signature.
-/
namespace MiniJava

/-- The byte `b` of an object belongs to a field. -/
def FieldRef.Covers (t : ClassTable) (r : FieldRef) (b : Nat) : Prop :=
  ∃ f start, t.field? r = some f ∧ f.start? = some start ∧ start ≤ b ∧ b < start + f.ty.size

/-- What callers know of an entry: who declares the method is left out. -/
def VTable.Entry.promise (e : VTable.Entry) : Name × IRType := (e.name, e.signature)

namespace Layout

open ClassTable

/-- What is known of a class other than the main class that is laid out behind its parent. -/
structure Compact (t : ClassTable) (layout : Layout) (d : ClassId) (l : ClassLayout) : Prop where
  /-- A field stands behind the fields of all proper ancestors and those declared before it. -/
  offsets : ∀ i f, (t.fields d)[i]? = some f →
    f.offset = some (sizeAbove t d + fieldSizes ((t.fields d).take i))
  /-- Every byte between the header and the end belongs to exactly one field. -/
  tiled : ∀ b, headerSize ≤ b → b < l.objectSize →
    ∃! r : FieldRef, r.cls ∈ t.chain d ∧ r.Covers t b
  inside : ∀ r : FieldRef, r.cls ∈ t.chain d → ∀ b, r.Covers t b → headerSize ≤ b ∧ b < l.objectSize
  objectSize : l.objectSize = headerSize + fieldSizes (t.visibleFields d)
  allocSize : l.allocSize = l.objectSize + headerSize
  /-- One entry for each name of a method that the class sees, and nothing else. -/
  slots : ∃ es : List VTable.Entry, l.vtable.slots = es.map some ∧ (es.map (·.name)).Nodup ∧
    ∀ n, n ∈ es.map (·.name) ↔ ∃ m ∈ t.visibleMethods d, m.name = n
  /-- The table begins with that of the parent. -/
  parent : ∀ p, t.parent? d = some p → ∃ k, layout[p]? = some k ∧
    k.vtable.slots.map (Option.map VTable.Entry.promise) <+:
      l.vtable.slots.map (Option.map VTable.Entry.promise)

/-- Every field that a class sees is placed behind those above it and before it. -/
def Rows (t : ClassTable) (d : ClassId) : Prop :=
  ∀ a ∈ t.chain d, ∀ i f, (t.fields a)[i]? = some f →
    f.offset = some (sizeAbove t a + fieldSizes ((t.fields a).take i))

/-- The byte `b` behind the header belongs to a field, by the sizes of what is before it. -/
def Spans (t : ClassTable) (r : FieldRef) (b : Nat) : Prop :=
  ∃ f, t.field? r = some f ∧ sizeAbove t r.cls + fieldSizes ((t.fields r.cls).take r.index) ≤ b ∧
    b < sizeAbove t r.cls + fieldSizes ((t.fields r.cls).take r.index) + f.ty.size

section Fields
variable {t : ClassTable} {d : ClassId}

theorem Rows.covers_iff (rows : Rows t d) {r : FieldRef} (hr : r.cls ∈ t.chain d) {b : Nat} :
    r.Covers t b ↔ headerSize ≤ b ∧ Spans t r (b - headerSize) := by
  constructor
  · rintro ⟨f, start, hf, hstart, low, high⟩
    rw [Field.start?, rows _ hr r.index f hf, Option.map_some, Option.some.injEq] at hstart
    exact ⟨by omega, f, hf, by omega, by omega⟩
  · rintro ⟨header, f, hf, low, high⟩
    have start : f.start? = some (headerSize +
        (sizeAbove t r.cls + fieldSizes ((t.fields r.cls).take r.index))) := by
      rw [Field.start?, rows _ hr r.index f hf]
      rfl
    exact ⟨f, _, hf, start, by omega, by omega⟩

theorem sizeAbove_of_top (hd : t.parent? d = none) : sizeAbove t d = 0 := by
  rw [sizeAbove, ancestors_of_top hd]
  rfl

theorem sizeAbove_of_parent (forest : t.Forest) {p : ClassId} (hp : t.parent? d = some p) :
    sizeAbove t d = fieldSizes (t.visibleFields p) := by
  rw [sizeAbove, forest.ancestors_of_parent hp]
  rfl

/-- What an ancestor sees takes no more room than what a class sees. -/
theorem visible_le (forest : t.Forest) {a : ClassId} (h : t.Descends d a) :
    fieldSizes (t.visibleFields a) ≤ fieldSizes (t.visibleFields d) := by
  induction h with
  | self _ => exact Nat.le_refl _
  | @up d p a hp _ ih =>
    have above := sizeAbove_of_parent forest hp
    rw [fieldSizes_visibleFields t d]
    omega

theorem Spans.bounds {r : FieldRef} {b : Nat} (h : Spans t r b) :
    sizeAbove t r.cls ≤ b ∧ b < fieldSizes (t.visibleFields r.cls) := by
  obtain ⟨f, hf, low, high⟩ := h
  rw [ClassTable.field?] at hf
  have stop := end_le_fieldSizes hf
  rw [fieldSizes_visibleFields]
  constructor <;> omega

theorem exists_own_spans {b : Nat} (low : sizeAbove t d ≤ b)
    (high : b < fieldSizes (t.visibleFields d)) : ∃ i, Spans t ⟨d, i⟩ b := by
  rw [fieldSizes_visibleFields] at high
  obtain ⟨i, f, hf, start, stop⟩ := exists_field_at (t.fields d) (b - sizeAbove t d) (by omega)
  refine ⟨i, f, hf, ?_, ?_⟩
  · change sizeAbove t d + fieldSizes ((t.fields d).take i) ≤ b
    omega
  · change b < sizeAbove t d + fieldSizes ((t.fields d).take i) + f.ty.size
    omega

/-- No room is left between the fields that a class sees. -/
theorem exists_spans (forest : t.Forest) (d : ClassId) :
    ∀ b < fieldSizes (t.visibleFields d), ∃ r : FieldRef, r.cls ∈ t.chain d ∧ Spans t r b := by
  induction d using forest.induction with
  | top d hd =>
    intro b hb
    have above := sizeAbove_of_top hd
    obtain ⟨i, spans⟩ := exists_own_spans (by omega) hb
    exact ⟨⟨d, i⟩, mem_chain_self t d, spans⟩
  | child d p hp ih =>
    intro b hb
    have above := sizeAbove_of_parent forest hp
    rcases Nat.lt_or_ge b (sizeAbove t d) with inherited | own
    · obtain ⟨r, hr, spans⟩ := ih b (by omega)
      refine ⟨r, ?_, spans⟩
      rw [forest.chain_of_parent hp]
      exact List.mem_cons_of_mem d hr
    · obtain ⟨i, spans⟩ := exists_own_spans own hb
      exact ⟨⟨d, i⟩, mem_chain_self t d, spans⟩

theorem Spans.unique_own {r q : FieldRef} {b : Nat} (h : Spans t r b) (h' : Spans t q b)
    (same : r.cls = q.cls) : r = q := by
  obtain ⟨c, i⟩ := r
  obtain ⟨c', j⟩ := q
  obtain rfl : c = c' := same
  obtain ⟨f, hf, low, high⟩ := h
  obtain ⟨g, hg, low', high'⟩ := h'
  change sizeAbove t c + fieldSizes ((t.fields c).take i) ≤ b at low
  change b < sizeAbove t c + fieldSizes ((t.fields c).take i) + f.ty.size at high
  change sizeAbove t c + fieldSizes ((t.fields c).take j) ≤ b at low'
  change b < sizeAbove t c + fieldSizes ((t.fields c).take j) + g.ty.size at high'
  change (t.fields c)[i]? = some f at hf
  change (t.fields c)[j]? = some g at hg
  have index : i = j := field_at_unique (b := b - sizeAbove t c) hf hg
    (by omega) (by omega) (by omega) (by omega)
  rw [index]

/-- No byte belongs to two of the fields that a class sees. -/
theorem spans_unique (forest : t.Forest) (d : ClassId) :
    ∀ {r q : FieldRef}, r.cls ∈ t.chain d → q.cls ∈ t.chain d → ∀ {b}, Spans t r b →
      Spans t q b → r = q := by
  induction d using forest.induction with
  | top d hd =>
    intro r q hr hq b h h'
    rw [chain_of_top hd, List.mem_singleton] at hr hq
    exact h.unique_own h' (hr.trans hq.symm)
  | child d p hp ih =>
    have above := sizeAbove_of_parent forest hp
    -- a field of the class itself is behind what the parent sees
    have apart : ∀ {r q : FieldRef}, r.cls = d → q.cls ∈ t.chain p → ∀ {b}, Spans t r b →
        ¬ Spans t q b := by
      rintro r q rfl hq b h h'
      have low := h.bounds.1
      have high := h'.bounds.2
      have within := visible_le forest (forest.mem_chain_iff.mp hq)
      omega
    intro r q hr hq b h h'
    rw [forest.chain_of_parent hp, List.mem_cons] at hr hq
    rcases hr with own | hr <;> rcases hq with own' | hq
    · exact h.unique_own h' (own.trans own'.symm)
    · exact absurd h' (apart own hq h)
    · exact absurd h (apart own' hr h')
    · exact ih hr hq h h'

theorem regionEnd_le {fs : List Field} {bound : Nat}
    (ends : ∀ f ∈ fs, ∀ o, f.offset = some o → o + f.ty.size ≤ bound) :
    ∀ {stop n : Nat}, stop ≤ bound → regionEnd stop fs = .ok n → n ≤ bound := by
  induction fs with
  | nil =>
    intro stop n below h
    exact Except.ok.inj h ▸ below
  | cons f fs ih =>
    obtain ⟨first, rest⟩ := List.forall_mem_cons.mp ends
    intro stop n below h
    rw [regionEnd] at h
    split at h
    · cases h
    · rename_i o ho
      exact ih rest (Nat.max_le.mpr ⟨below, first o ho⟩) h

/-- A field that a class sees ends where all that the class sees has ended, or before. -/
theorem Rows.end_le (forest : t.Forest) (rows : Rows t d) :
    ∀ f ∈ t.visibleFields d, ∀ o, f.offset = some o →
      o + f.ty.size ≤ fieldSizes (t.visibleFields d) := by
  intro f hf o ho
  obtain ⟨a, ha, hf⟩ := List.mem_flatMap.mp hf
  obtain ⟨i, hi⟩ := List.getElem?_of_mem hf
  have offset := rows a ha i f hi
  obtain rfl := Option.some.inj (ho.symm.trans offset)
  have stop := end_le_fieldSizes hi
  have within := visible_le forest (forest.mem_chain_iff.mp ha)
  rw [fieldSizes_visibleFields t a] at within
  omega

/-- The main class has nothing below it. -/
theorem not_main_of_descends (wf : t.WellFormed) {a : ClassId} (h : t.Descends d a)
    (main : t.isMain d = false) : t.isMain a = false := by
  induction h with
  | self _ => exact main
  | up hp _ ih => exact ih (wf.parent_not_main hp)

theorem objectSize_of_ofClass {l : ClassLayout} (h : ofClass t d = .ok l) :
    l.objectSize = headerSize + fieldSizes (t.visibleFields d) := by
  obtain ⟨stop, _, h⟩ := exists_of_bind_eq_ok h
  obtain ⟨v, _, h⟩ := exists_of_bind_eq_ok h
  obtain rfl := Except.ok.inj h
  rfl

/-- No room is asked for but that for the fields and two headers. -/
theorem Rows.allocSize (forest : t.Forest) (rows : Rows t d) {l : ClassLayout}
    (h : ofClass t d = .ok l) : l.allocSize = l.objectSize + headerSize := by
  obtain ⟨stop, hstop, h⟩ := exists_of_bind_eq_ok h
  obtain ⟨v, _, h⟩ := exists_of_bind_eq_ok h
  obtain rfl := Except.ok.inj h
  have below := regionEnd_le (rows.end_le forest) (Nat.zero_le _) hstop
  refine congrArg (· + headerSize) (Nat.max_eq_left ?_)
  exact Nat.add_le_add_left below headerSize

end Fields

section Tables
variable {t : ClassTable} {d : ClassId} {v : VTable}

theorem vtable_of_ofClass {l : ClassLayout} (h : ofClass t d = .ok l) :
    VTable.build t d = .ok l.vtable := by
  obtain ⟨stop, _, h⟩ := exists_of_bind_eq_ok h
  obtain ⟨v, hv, h⟩ := exists_of_bind_eq_ok h
  obtain rfl := Except.ok.inj h
  exact hv

/-- What stands in the slot of a method that a class sees. -/
theorem exists_entry_of_visible (wf : t.WellFormed) (dispatches : VTable.Dispatches t d v)
    {m : Method} (hm : m ∈ t.visibleMethods d) :
    ∃ slot e, m.slot? = some slot ∧ v.slots[slot]? = some (some e) ∧ e.name = m.name := by
  obtain ⟨a, ha, hm⟩ := mem_visibleMethods.mp hm
  obtain ⟨i, hi⟩ := List.getElem?_of_mem hm
  have hr : t.method? ⟨a, i⟩ = some m := hi
  obtain ⟨k, slot, e, hk, hslot, he, _, name, _⟩ :=
    dispatches.nearest a ha m.name ⟨a, i⟩ (findMethod?_of_own (wf.ownMethod?_of_method? hr))
  obtain rfl := Option.some.inj (hr.symm.trans hk)
  exact ⟨slot, e, hslot, he, name⟩

section Built
variable (wf : t.WellFormed) (listed : t.InheritanceListed) (hd : d < t.size)
  (main : t.isMain d = false) (built : VTable.build t d = .ok v)
include wf listed hd main built

/-- What stands in a slot is what the class sees under the name. -/
theorem find_of_slot {i : Nat} {e : VTable.Entry} (h : v.slots[i]? = some (some e)) :
    ∃ m, t.findMethod? d e.name = some e.ref ∧ t.method? e.ref = some m ∧ m.slot? = some i ∧
      e.signature = m.signature := by
  obtain ⟨hr, hentry⟩ := VTable.entry_of_slot built main h
  obtain ⟨m, hm, slot, he⟩ := VTable.exists_of_entry hentry
  obtain ⟨n, hn⟩ := (Check.mem_refs_iff wf listed hd).mp hr
  obtain ⟨k, hk, name⟩ := exists_method_of_find hn
  obtain rfl := Option.some.inj (hm.symm.trans hk)
  have same : e.name = n := (congrArg VTable.Entry.name he).trans name
  exact ⟨m, same ▸ hn, hm, slot, congrArg VTable.Entry.signature he⟩

/-- There is no slot with nothing in it. -/
theorem exists_entry_of_lt (dispatches : VTable.Dispatches t d v) {bound : Nat}
    (slotted : Slotted t d bound) (dense : Dense (t.visibleMethods d) bound) {i : Nat}
    (hi : i < v.slots.length) : ∃ e, v.slots[i]? = some (some e) := by
  obtain ⟨r, hr, m, j, hm, hslot, behind⟩ := VTable.exists_slot_behind built main hi
  obtain ⟨n, hn⟩ := (Check.mem_refs_iff wf listed hd).mp hr
  obtain ⟨o, ho, below, _⟩ := slotted.apart.placed m (mem_visibleMethods_of_find hn hm)
  obtain rfl := Option.some.inj ((slot?_eq_some ho).symm.trans hslot)
  -- the slots are multiples of the size of an entry, so slot `i` is below the counter as well
  have within : Method.slotSize * i < bound := by
    simp only [Method.slotSize] at behind ⊢
    omega
  obtain ⟨k, hk, offset⟩ := dense _ within (Nat.dvd_mul_right _ _)
  obtain ⟨slot, e, hslot', he, _⟩ := exists_entry_of_visible wf dispatches hk
  have same : slot = i := by
    rw [slot?_eq_some offset, Nat.mul_div_cancel_left i (by decide)] at hslot'
    exact (Option.some.inj hslot').symm
  exact ⟨e, same ▸ he⟩

/-- Two slots are never for one name. -/
theorem slot_unique {i j : Nat} {e f : VTable.Entry} (he : v.slots[i]? = some (some e))
    (hf : v.slots[j]? = some (some f)) (name : e.name = f.name) : i = j := by
  obtain ⟨m, hr, hm, slot, _⟩ := find_of_slot wf listed hd main built he
  obtain ⟨k, hq, hk, slot', _⟩ := find_of_slot wf listed hd main built hf
  rw [name] at hr
  have ref : e.ref = f.ref := Option.some.inj (hr.symm.trans hq)
  rw [ref] at hm
  obtain rfl := Option.some.inj (hm.symm.trans hk)
  exact Option.some.inj (slot.symm.trans slot')

/-- A dense table has one entry for each name. -/
theorem exists_entries (dispatches : VTable.Dispatches t d v) {bound : Nat}
    (slotted : Slotted t d bound) (dense : Dense (t.visibleMethods d) bound) :
    ∃ es : List VTable.Entry, v.slots = es.map some ∧ (es.map (·.name)).Nodup ∧
      ∀ n, n ∈ es.map (·.name) ↔ ∃ m ∈ t.visibleMethods d, m.name = n := by
  have full : ∀ s ∈ v.slots, s.isSome = true := by
    intro s hs
    obtain ⟨i, hi⟩ := List.getElem?_of_mem hs
    obtain ⟨e, he⟩ := exists_entry_of_lt wf listed hd main built dispatches slotted dense
      (List.getElem?_eq_some_iff.mp hi).1
    obtain rfl := Option.some.inj (he.symm.trans hi)
    rfl
  obtain ⟨es, hes⟩ : ∃ es : List VTable.Entry, es.map some = v.slots := by
    refine ⟨v.slots.filterMap id, ?_⟩
    rw [List.map_filterMap_some_eq_filter_map_isSome, List.map_id, List.filter_eq_self]
    exact full
  have stands : ∀ {i : Nat} {e}, es[i]? = some e → v.slots[i]? = some (some e) := by
    intro i e he
    rw [← hes, List.getElem?_map, he]
    rfl
  refine ⟨es, hes.symm, ?_, ?_⟩
  · apply List.pairwise_iff_getElem.mpr
    intro i j hi hj before heq
    rw [List.length_map] at hi hj
    rw [List.getElem_map, List.getElem_map] at heq
    have same := slot_unique wf listed hd main built (stands (List.getElem?_eq_getElem hi))
      (stands (List.getElem?_eq_getElem hj)) heq
    exact Nat.ne_of_lt before same
  · intro n
    rw [List.mem_map]
    constructor
    · rintro ⟨e, he, rfl⟩
      obtain ⟨i, hi⟩ := List.getElem?_of_mem he
      obtain ⟨m, hr, hm, _⟩ := find_of_slot wf listed hd main built (stands hi)
      obtain ⟨k, hk, name⟩ := exists_method_of_find hr
      exact ⟨k, mem_visibleMethods_of_find hr hk, name⟩
    · rintro ⟨m, hm, rfl⟩
      obtain ⟨slot, e, _, he, name⟩ := exists_entry_of_visible wf dispatches hm
      rw [← hes, List.getElem?_map] at he
      obtain ⟨e', he', same⟩ := Option.map_eq_some_iff.mp he
      obtain rfl := Option.some.inj same
      exact ⟨e', List.mem_of_getElem? he', name⟩

/-- What the parent has in a slot, the class has there as well, or an override of it. -/
theorem promise_of_parent {c : ClassId} {w : VTable} (hdc : d ∈ t.chain c)
    (dispatches : VTable.Dispatches t c w) {i : Nat} {e : VTable.Entry}
    (h : v.slots[i]? = some (some e)) :
    ∃ f, w.slots[i]? = some (some f) ∧ f.promise = e.promise := by
  obtain ⟨m, hr, hm, slot, signature⟩ := find_of_slot wf listed hd main built h
  obtain ⟨k, slot', f, hk, hslot', hf, _, name, _, signature'⟩ :=
    dispatches.nearest d hdc e.name e.ref hr
  obtain rfl := Option.some.inj (hm.symm.trans hk)
  obtain rfl := Option.some.inj (slot.symm.trans hslot')
  exact ⟨f, hf, Prod.ext name (signature'.trans signature.symm)⟩

end Built

end Tables

/-- A table whose overrides agree is laid out without gaps. -/
theorem compact_of_compute {t u : ClassTable} (wf : t.WellFormed) (listed : t.InheritanceListed)
    {layout : Layout} (computed : compute .parentPrefix t = (u, .ok layout))
    (complete : Complete u layout) {d : ClassId} {l : ClassLayout} (hl : layout[d]? = some l)
    (main : u.isMain d = false) : Compact u layout d l := by
  have laid : ∀ {c k}, layout[c]? = some k → c < u.size ∧ ofClass u c = .ok k :=
    fun hk => ofClass_of_compute computed hk
  obtain ⟨rfl, _⟩ := Prod.mk.inj computed
  have same := (sameDeclarations_assign wf .parentPrefix).outline
  have wf' : (assign .parentPrefix t).WellFormed := wf.of_sameOutline same.symm
  have listed' : (assign .parentPrefix t).InheritanceListed := listed.of_sameOutline same.symm
  have forest : (assign .parentPrefix t).Forest := wf'.forest
  have packed : ∀ {c}, c < (assign .parentPrefix t).size →
      (assign .parentPrefix t).isMain c = false → ∃ k, Packed (assign .parentPrefix t) c k ∧
        Slotted (assign .parentPrefix t) c k.slot := fun hc hm =>
    exists_packed_assign wf (same.size ▸ hc) ((same.isMain _).symm.trans hm)
  obtain ⟨hd, hof⟩ := laid hl
  have rows : Rows (assign .parentPrefix t) d := by
    intro a ha
    have member : a < (assign .parentPrefix t).size :=
      Nat.lt_of_le_of_lt (forest.le_of_mem_chain ha) hd
    have other := not_main_of_descends wf' (forest.mem_chain_iff.mp ha) main
    obtain ⟨k, pack, _⟩ := packed member other
    exact pack.offsets
  obtain ⟨k, pack, slotted⟩ := packed hd main
  have built := vtable_of_ofClass hof
  have dispatches := (complete.classes d l hl).2
  have size := objectSize_of_ofClass hof
  refine ⟨pack.offsets, ?_, ?_, size, rows.allocSize forest hof,
    exists_entries wf' listed' hd main built dispatches slotted pack.dense, ?_⟩
  · intro b low high
    obtain ⟨r, hr, spans⟩ := exists_spans forest d (b - headerSize) (by omega)
    refine ⟨r, ⟨hr, (rows.covers_iff hr).mpr ⟨low, spans⟩⟩, ?_⟩
    rintro q ⟨hq, covers⟩
    exact spans_unique forest d hq hr ((rows.covers_iff hq).mp covers).2 spans
  · intro r hr b covers
    obtain ⟨low, spans⟩ := (rows.covers_iff hr).mp covers
    have high := spans.bounds.2
    have within := visible_le forest (forest.mem_chain_iff.mp hr)
    exact ⟨low, by omega⟩
  · intro p hp
    have other := wf'.parent_not_main hp
    have hlt : p < (assign .parentPrefix t).size := Nat.lt_trans (forest hp) hd
    obtain ⟨lp, hlp⟩ : ∃ lp, layout[p]? = some lp :=
      ⟨_, List.getElem?_eq_getElem (complete.length ▸ hlt)⟩
    have built' := vtable_of_ofClass (laid hlp).2
    obtain ⟨kp, pack', slotted'⟩ := packed hlt other
    refine ⟨lp, hlp, List.prefix_iff_getElem?.mpr fun i hi => ?_⟩
    rw [List.length_map] at hi
    obtain ⟨e, he⟩ := exists_entry_of_lt wf' listed' hlt other built'
      (complete.classes p lp hlp).2 slotted' pack'.dense hi
    have above : p ∈ (assign .parentPrefix t).chain d :=
      forest.mem_chain_iff.mpr (.up hp (.self p))
    obtain ⟨f, hf, promise⟩ := promise_of_parent wf' listed' hlt other built' above dispatches he
    rw [List.getElem?_map, hf, List.getElem_map, (List.getElem?_eq_some_iff.mp he).2]
    exact congrArg (fun x => some (some x)) promise

end Layout

open Check ClassTable

/-- The classes of an accepted program are laid out without gaps behind their parents, whatever the
limit for errors was. -/
theorem parent_prefix_compact {o : CheckOptions} {p : Program .bare} {c : Checked}
    (accepted : (check o p).result = .ok c) :
    ∃ t layout, Layout.compute .parentPrefix c.table = (t, .ok layout) ∧
      SameDeclarations t c.table ∧ layout.length = t.size ∧
      ∀ (d : ClassId) (l : ClassLayout), layout[d]? = some l → t.isMain d = false →
        l.cls = d ∧ Layout.Compact t layout d l := by
  obtain ⟨wf, listed, agree⟩ := table_of_accepted accepted
  obtain ⟨layout, computed, complete⟩ := Layout.compute_eq_ok wf listed agree .parentPrefix
  refine ⟨_, layout, computed, Layout.sameDeclarations_assign wf .parentPrefix, complete.length, ?_⟩
  intro d l hl main
  exact ⟨(complete.classes d l hl).1, Layout.compact_of_compute wf listed computed complete hl main⟩

theorem parent_prefix_compact_branches :
    ∃ c, (check {} branches).result = .ok c ∧
      ∃ t layout, Layout.compute .parentPrefix c.table = (t, .ok layout) ∧
        SameDeclarations t c.table ∧ layout.length = t.size ∧
        ∀ (d : ClassId) (l : ClassLayout), layout[d]? = some l → t.isMain d = false →
          l.cls = d ∧ Layout.Compact t layout d l := by
  obtain ⟨c, accepted⟩ := exists_of_isOk (x := (check {} branches).result) (by decide +kernel)
  exact ⟨c, accepted, parent_prefix_compact accepted⟩

end MiniJava
