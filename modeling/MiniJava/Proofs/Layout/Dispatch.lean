import MiniJava.Layout.Object
import MiniJava.Proofs.Inheritance
import MiniJava.Proofs.Layout.Counters
import MiniJava.Proofs.Overrides

/-!
# Tables of methods

A call is compiled from the method that the static type of the receiver sees. The table of the
class of the object holds, in the slot of that method, the nearest declaration from that class: an
override keeps the slot it overrides, and methods of different names are apart. So filling a table
loses no entry, although the last of several entries for one slot would win.
-/
namespace MiniJava

namespace VTable

/-- What stands in the table of methods `v` of the class `d`. -/
structure Dispatches (t : ClassTable) (d : ClassId) (v : VTable) : Prop where
  /-- A call of the method `r` that an ancestor sees as `m` loads the method that `d` sees as `m`,
  and casts it to the type that it has. -/
  nearest : ∀ a ∈ t.chain d, ∀ m r, t.findMethod? a m = some r →
    ∃ k slot e, t.method? r = some k ∧ k.slot? = some slot ∧ v.slots[slot]? = some (some e) ∧
      t.findMethod? d m = some e.ref ∧ e.name = m ∧ e.owner = t.nameOf e.ref.cls ∧
      e.signature = k.signature
  /-- Methods of different names have different slots. -/
  apart : ∀ k ∈ t.visibleMethods d, ∀ l ∈ t.visibleMethods d, k.slot? = l.slot? → k.name = l.name
  /-- No entry is overwritten. -/
  kept : ∀ r ∈ refs t d, ∃ slot e,
    entry t r = .ok (slot, e) ∧ e.ref = r ∧ v.slots[slot]? = some (some e)

variable {t : ClassTable}

theorem entry_eq_ok {r : MethodRef} {m : Method} {slot : Nat} (hm : t.method? r = some m)
    (hs : m.slot? = some slot) :
    entry t r = .ok (slot, ⟨r, m.name, t.nameOf r.cls, m.signature⟩) := by
  simp only [entry, hm, hs]

theorem entriesOf_eq_ok {rs : List MethodRef} (h : ∀ r ∈ rs, ∃ e, entry t r = .ok e) :
    ∃ es, entriesOf t rs = .ok es ∧ ∀ e, e ∈ es ↔ ∃ r ∈ rs, entry t r = .ok e := by
  induction rs with
  | nil => exact ⟨[], rfl, fun e => ⟨fun he => (by cases he), fun ⟨r, hr, _⟩ => (by cases hr)⟩⟩
  | cons r rs ih =>
    obtain ⟨e, he⟩ := h r List.mem_cons_self
    obtain ⟨es, hes, mem⟩ := ih fun q hq => h q (List.mem_cons_of_mem r hq)
    refine ⟨e :: es, by rw [entriesOf, he, hes]; rfl, ?_⟩
    intro x
    rw [List.mem_cons, mem]
    constructor
    · rintro (rfl | ⟨q, hq, hx⟩)
      · exact ⟨r, List.mem_cons_self, he⟩
      · exact ⟨q, List.mem_cons_of_mem r hq, hx⟩
    · rintro ⟨q, hq, hx⟩
      rcases List.mem_cons.mp hq with rfl | hq
      · exact Or.inl (Except.ok.inj (hx.symm.trans he))
      · exact Or.inr ⟨q, hq, hx⟩

theorem le_foldl_max (es : List (Nat × Entry)) :
    ∀ n, n ≤ es.foldl (fun n e => max n (e.1 + 1)) n := by
  induction es with
  | nil => intro n; exact Nat.le_refl n
  | cons e es ih => intro n; exact Nat.le_trans (Nat.le_max_left _ _) (ih _)

theorem lt_foldl_max {es : List (Nat × Entry)} {e : Nat × Entry} (he : e ∈ es) :
    ∀ n, e.1 < es.foldl (fun n e => max n (e.1 + 1)) n := by
  induction es with
  | nil => cases he
  | cons x xs ih =>
    intro n
    rcases List.mem_cons.mp he with rfl | he
    · exact Nat.lt_of_lt_of_le (Nat.lt_of_succ_le (Nat.le_max_right _ _)) (le_foldl_max xs _)
    · exact ih he _

/-- An entry stands in its slot if no other entry has the slot. -/
theorem fill_of_mem {es : List (Nat × Entry)} {e : Nat × Entry} (he : e ∈ es)
    (alone : ∀ x ∈ es, x.1 = e.1 → x = e) : (fill es)[e.1]? = some (some e.2) := by
  have hlt : e.1 < es.foldl (fun n e => max n (e.1 + 1)) 0 := lt_foldl_max he 0
  have hmem : e ∈ es.filter (·.1 == e.1) := List.mem_filter.mpr ⟨he, by simp⟩
  have last : (es.filter (·.1 == e.1)).getLast? = some e := by
    cases hl : (es.filter (·.1 == e.1)).getLast? with
    | none =>
      rw [List.getLast?_eq_none_iff.mp hl] at hmem
      cases hmem
    | some x =>
      obtain ⟨hx, hslot⟩ := List.mem_filter.mp (List.mem_of_getLast? hl)
      rw [alone x hx (by simpa using hslot)]
  simp only [fill, List.getElem?_map, List.getElem?_range hlt, Option.map_some, last]

end VTable

namespace Layout

open ClassTable

variable {t : ClassTable}

theorem Slotted.of_parent (forest : t.Forest) {c p : ClassId} {bound : Nat}
    (h : Slotted t c bound) (hp : t.parent? c = some p) : Slotted t p bound := by
  refine ⟨h.apart.of_subset fun k hk => ?_, fun a ha => h.overriding a ?_⟩
  · rw [visibleMethods_of_parent forest hp]
    exact List.mem_append_right _ hk
  · rw [forest.chain_of_parent hp]
    exact List.mem_cons_of_mem c ha

/-- Seen from a class, a name has the slot that it has for the ancestors of the class. -/
theorem Slotted.slot_of_descends (forest : t.Forest) {d a : ClassId} (hda : t.Descends d a)
    {bound : Nat} (h : Slotted t d bound) {n : Name} {r s : MethodRef} {m k : Method}
    (hr : t.findMethod? d n = some r) (hs : t.findMethod? a n = some s)
    (hm : t.method? r = some m) (hk : t.method? s = some k) : m.slotOffset = k.slotOffset := by
  induction hda generalizing r m with
  | self _ =>
    obtain rfl := Option.some.inj (hr.symm.trans hs)
    rw [Option.some.inj (hm.symm.trans hk)]
  | @up d p a hp hpa ih =>
    have above := h.of_parent forest hp
    cases hown : t.ownMethod? d n with
    | none =>
      rw [forest.findMethod?_of_parent hp hown] at hr
      exact ih above hr hs hm
    | some i =>
      obtain rfl := Option.some.inj ((findMethod?_of_own hown).symm.trans hr)
      -- what the parent sees is overridden here
      obtain ⟨q, hq⟩ := Option.isSome_iff_exists.mp
        (forest.findMethod?_isSome_of_descends hpa (by rw [hs]; rfl))
      obtain ⟨l, hl, _⟩ := exists_method_of_find hq
      obtain ⟨m', hm', name⟩ := exists_method_of_own hown
      obtain rfl := Option.some.inj (hm.symm.trans hm')
      obtain ⟨o, ho, _, _⟩ := above.apart.placed l (mem_visibleMethods.mpr
        ⟨q.cls, (findMethod?_eq_some hq).1, mem_methods_of_method? hl⟩)
      have overridden : overridden? t (t.parent? d) m.name = some o := by
        simp only [overridden?, hp, name, Option.bind_eq_bind, Option.bind_some, hq, hl, ho]
      rw [h.overriding d (mem_chain_self t d) m (mem_methods_of_method? hm) o overridden, ← ho]
      exact ih above hq hs hl

theorem slot?_eq_some {m : Method} {o : Nat} (h : m.slotOffset = some o) :
    m.slot? = some (o / Method.slotSize) := by
  rw [Method.slot?, h]
  rfl

/-- Slots tell offsets apart, since these are multiples of the size of an entry. -/
theorem Apart.name_eq_of_slot {ms : List Method} {bound : Nat} (h : Apart ms bound) :
    ∀ k ∈ ms, ∀ l ∈ ms, k.slot? = l.slot? → k.name = l.name := by
  intro k hk l hl heq
  obtain ⟨o, ho, _, hdvd⟩ := h.placed k hk
  obtain ⟨o', ho', _, hdvd'⟩ := h.placed l hl
  rw [slot?_eq_some ho, slot?_eq_some ho', Option.some.injEq] at heq
  refine h.distinct k hk l hl ?_
  rw [ho, ho', Nat.div_left_inj hdvd hdvd' |>.mp heq]

/-- What a class sees under a name is among the methods it sees. -/
theorem mem_visibleMethods_of_find {d : ClassId} {n : Name} {r : MethodRef} {m : Method}
    (hr : t.findMethod? d n = some r) (hm : t.method? r = some m) : m ∈ t.visibleMethods d :=
  mem_visibleMethods.mpr ⟨r.cls, (findMethod?_eq_some hr).1, mem_methods_of_method? hm⟩

/-- What a slotted class sees has a slot. -/
theorem Slotted.exists_slot {d : ClassId} {bound : Nat} (h : Slotted t d bound) {n : Name}
    {r : MethodRef} (hr : t.findMethod? d n = some r) :
    ∃ k slot, t.method? r = some k ∧ k.name = n ∧ k.slot? = some slot := by
  obtain ⟨k, hk, name⟩ := exists_method_of_find hr
  obtain ⟨o, ho, _⟩ := h.apart.placed k (mem_visibleMethods_of_find hr hk)
  exact ⟨k, _, hk, name, slot?_eq_some ho⟩

/-- A slot stands for one of the methods that a slotted class sees. -/
theorem Slotted.eq_of_slot {d : ClassId} {bound : Nat} (h : Slotted t d bound) {n n' : Name}
    {r q : MethodRef} {k l : Method} (hr : t.findMethod? d n = some r)
    (hq : t.findMethod? d n' = some q) (hk : t.method? r = some k) (hl : t.method? q = some l)
    (slots : k.slot? = l.slot?) : r = q := by
  obtain ⟨k', hk', name⟩ := exists_method_of_find hr
  obtain ⟨l', hl', name'⟩ := exists_method_of_find hq
  obtain rfl := Option.some.inj (hk.symm.trans hk')
  obtain rfl := Option.some.inj (hl.symm.trans hl')
  have names : k.name = l.name := h.apart.name_eq_of_slot
    k (mem_visibleMethods_of_find hr hk) l (mem_visibleMethods_of_find hq hl) slots
  rw [name, name'] at names
  exact Option.some.inj (hr.symm.trans (names ▸ hq))

/-- A class that is slotted has a table, which dispatches. -/
theorem Slotted.build (wf : t.WellFormed) (listed : t.InheritanceListed) (agree : t.OverridesAgree)
    {d : ClassId} {bound : Nat} (h : Slotted t d bound) (hd : d < t.size)
    (main : t.isMain d = false) : ∃ v, VTable.build t d = .ok v ∧ VTable.Dispatches t d v := by
  have forest : t.Forest := wf.forest
  have entries : ∀ r ∈ VTable.refs t d, ∃ e, VTable.entry t r = .ok e := by
    intro r hr
    obtain ⟨n, hn⟩ := (Check.mem_refs_iff wf listed hd).mp hr
    obtain ⟨k, slot, hk, _, hslot⟩ := h.exists_slot hn
    exact ⟨_, VTable.entry_eq_ok hk hslot⟩
  obtain ⟨es, hes, mem⟩ := VTable.entriesOf_eq_ok entries
  have stands : ∀ n r, t.findMethod? d n = some r → ∀ k slot, t.method? r = some k →
      k.slot? = some slot →
      (VTable.fill es)[slot]? = some (some ⟨r, k.name, t.nameOf r.cls, k.signature⟩) := by
    intro n r hr k slot hk hslot
    have hentry := VTable.entry_eq_ok hk hslot
    refine VTable.fill_of_mem (e := (slot, _)) ((mem _).mpr
      ⟨r, (Check.mem_refs_iff wf listed hd).mpr ⟨n, hr⟩, hentry⟩) ?_
    -- an entry for the same slot is for the same method
    intro x hx heq
    obtain ⟨q, hq, hqx⟩ := (mem x).mp hx
    obtain ⟨n', hn'⟩ := (Check.mem_refs_iff wf listed hd).mp hq
    obtain ⟨l, slot', hl, _, hslot'⟩ := h.exists_slot hn'
    obtain rfl : x = _ := Except.ok.inj (hqx.symm.trans (VTable.entry_eq_ok hl hslot'))
    obtain rfl : slot' = slot := heq
    obtain rfl := h.eq_of_slot hr hn' hk hl (hslot.trans hslot'.symm)
    exact Except.ok.inj (hqx.symm.trans hentry)
  refine ⟨⟨t.nameOf d, VTable.fill es⟩, by rw [VTable.build, main, hes]; rfl, ?_, ?_, ?_⟩
  · intro a ha m r hr
    have hda := forest.mem_chain_iff.mp ha
    obtain ⟨q, hq⟩ := Option.isSome_iff_exists.mp
      (forest.findMethod?_isSome_of_descends hda (by rw [hr]; rfl))
    obtain ⟨k, hk, _⟩ := exists_method_of_find hr
    obtain ⟨l, slot, hl, name, hslot⟩ := h.exists_slot hq
    have same := h.slot_of_descends forest hda hq hr hl hk
    have agrees := agree.of_descends forest hda hq hr hl hk
    refine ⟨k, slot, ⟨q, l.name, t.nameOf q.cls, l.signature⟩, hk, ?_,
      stands m q hq l slot hl hslot, hq, name, rfl, ?_⟩
    · rw [Method.slot?, ← same]
      exact hslot
    · simp only [Method.signature, agrees.1, agrees.2]
  · exact h.apart.name_eq_of_slot
  · intro r hr
    obtain ⟨n, hn⟩ := (Check.mem_refs_iff wf listed hd).mp hr
    obtain ⟨k, slot, hk, _, hslot⟩ := h.exists_slot hn
    exact ⟨slot, _, VTable.entry_eq_ok hk hslot, rfl, stands n r hn k slot hk hslot⟩

/-- The main class has no methods, and an empty table. -/
theorem build_main (wf : t.WellFormed) (listed : t.InheritanceListed) {d : ClassId}
    (hd : d < t.size) (main : t.isMain d = true) :
    ∃ v, VTable.build t d = .ok v ∧ VTable.Dispatches t d v := by
  have hzero : d = 0 := wf.isMain_iff.mp main
  have alone : t.chain d = [d] := chain_of_top (hzero ▸ wf.main_top)
  have methods : t.methods d = [] := hzero ▸ wf.main_methods
  have unseen : ∀ n, t.findMethod? d n = none := by
    intro n
    refine findMethod?_of_top (hzero ▸ wf.main_top) ?_
    rw [ownMethod?, methods]
    rfl
  refine ⟨⟨t.nameOf d, []⟩, by rw [VTable.build, if_pos main], ?_, ?_, ?_⟩
  · intro a ha m r hr
    rw [alone, List.mem_singleton] at ha
    rw [ha, unseen] at hr
    cases hr
  · intro k hk
    rw [visibleMethods, alone, List.flatMap_singleton, methods] at hk
    cases hk
  · intro r hr
    obtain ⟨n, hn⟩ := (Check.mem_refs_iff wf listed hd).mp hr
    rw [unseen] at hn
    cases hn

theorem regionEnd_eq_ok (fs : List Field) (h : ∀ f ∈ fs, f.offset.isSome) :
    ∀ stop, ∃ n, regionEnd stop fs = .ok n := by
  induction fs with
  | nil => intro stop; exact ⟨stop, rfl⟩
  | cons f fs ih =>
    intro stop
    obtain ⟨o, ho⟩ := Option.isSome_iff_exists.mp (h f List.mem_cons_self)
    obtain ⟨n, hn⟩ := ih (fun g hg => h g (List.mem_cons_of_mem f hg)) (max stop (o + f.ty.size))
    exact ⟨n, by simp only [regionEnd, ho, hn]⟩

theorem ofClass_eq_ok {c : ClassId} {v : VTable}
    (offsets : ∀ f ∈ t.visibleFields c, f.offset.isSome) (hv : VTable.build t c = .ok v) :
    ∃ l, ofClass t c = .ok l ∧ l.cls = c ∧ l.vtable = v := by
  obtain ⟨n, hn⟩ := regionEnd_eq_ok _ offsets 0
  have hok : ofClass t c = .ok ⟨c, t.nameOf c, headerSize + fieldSizes (t.visibleFields c),
      max (headerSize + fieldSizes (t.visibleFields c)) (headerSize + n) + headerSize, v⟩ := by
    simp only [ofClass, hn, hv]
    rfl
  exact ⟨_, hok, rfl, rfl⟩

theorem ofClasses_eq_ok {cs : List ClassId}
    (h : ∀ c ∈ cs, ∃ l, ofClass t c = .ok l ∧ l.cls = c ∧ VTable.Dispatches t c l.vtable) :
    ∃ ls, ofClasses t cs = .ok ls ∧ ls.length = cs.length ∧
      ∀ (i : Nat) (l : ClassLayout), ls[i]? = some l →
        ∃ c, cs[i]? = some c ∧ l.cls = c ∧ VTable.Dispatches t c l.vtable := by
  induction cs with
  | nil => exact ⟨[], rfl, rfl, fun i l hl => (by simp at hl)⟩
  | cons c cs ih =>
    obtain ⟨l, hl, hdispatches⟩ := h c List.mem_cons_self
    obtain ⟨ls, hls, len, rest⟩ := ih fun d hd => h d (List.mem_cons_of_mem c hd)
    refine ⟨l :: ls, by rw [ofClasses, hl, hls]; rfl, by rw [List.length_cons, len]; rfl, ?_⟩
    intro i k hk
    cases i with
    | zero => exact ⟨c, rfl, Option.some.inj hk ▸ hdispatches⟩
    | succ i => exact rest i k hk

theorem exists_of_bind_eq_ok {ε α β : Type} {x : Except ε α} {f : α → Except ε β} {b : β}
    (h : x >>= f = .ok b) : ∃ a, x = .ok a ∧ f a = .ok b := by
  cases x with
  | error e => cases h
  | ok a => exact ⟨a, rfl, h⟩

theorem name_of_ofClass_eq_ok {c : ClassId} {l : ClassLayout} (h : ofClass t c = .ok l) :
    l.name = t.nameOf c := by
  obtain ⟨stop, _, h⟩ := exists_of_bind_eq_ok h
  obtain ⟨v, _, h⟩ := exists_of_bind_eq_ok h
  obtain rfl := Except.ok.inj h
  rfl

theorem names_of_ofClasses_eq_ok {cs : List ClassId} :
    ∀ {ls : Layout}, ofClasses t cs = .ok ls → ls.map (·.name) = cs.map t.nameOf := by
  induction cs with
  | nil =>
    intro ls h
    obtain rfl := Except.ok.inj h
    rfl
  | cons c cs ih =>
    intro ls h
    obtain ⟨l, hl, h⟩ := exists_of_bind_eq_ok h
    obtain ⟨ls', hls, h⟩ := exists_of_bind_eq_ok h
    obtain rfl := Except.ok.inj h
    rw [List.map_cons, List.map_cons, name_of_ofClass_eq_ok hl, ih hls]

/-- The classes of a layout have the names of the classes of the table. -/
theorem names_of_compute {s : Strategy} {u : ClassTable} {layout : Layout}
    (h : compute s t = (u, .ok layout)) : layout.map (·.name) = u.names := by
  obtain ⟨rfl, computed⟩ := Prod.mk.inj h
  rw [names_of_ofClasses_eq_ok computed]
  refine List.ext_getElem (by simp [ids, names, size]) fun i hi hi' => ?_
  have hlt : i < (assign s t).classes.size := by simpa [ids, size] using hi
  simp [ids, names, nameOf, get?, hlt]

/-- What a layout promises: an entry for every class, with a table that dispatches. -/
structure Complete (t : ClassTable) (layout : Layout) : Prop where
  length : layout.length = t.size
  classes : ∀ (d : ClassId) (l : ClassLayout), layout[d]? = some l →
    l.cls = d ∧ VTable.Dispatches t d l.vtable

/-- A table whose overrides agree is laid out. -/
theorem compute_eq_ok (wf : t.WellFormed) (listed : t.InheritanceListed) (agree : t.OverridesAgree)
    (s : Strategy) :
    ∃ layout, compute s t = (assign s t, .ok layout) ∧ Complete (assign s t) layout := by
  have same := sameDeclarations_assign wf s
  have wf' : (assign s t).WellFormed := wf.of_sameOutline same.outline.symm
  have listed' : (assign s t).InheritanceListed := listed.of_sameOutline same.outline.symm
  have agree' : (assign s t).OverridesAgree := agree.of_sameDeclarations same.symm
  have laid : ∀ c ∈ (assign s t).ids, ∃ l, ofClass (assign s t) c = .ok l ∧ l.cls = c ∧
      VTable.Dispatches (assign s t) c l.vtable := by
    intro c hc
    have hlt : c < (assign s t).size := List.mem_range.mp hc
    have offsets : ∀ f ∈ (assign s t).visibleFields c, f.offset.isSome := by
      intro f hf
      obtain ⟨a, _, hfa⟩ := List.mem_flatMap.mp hf
      obtain ⟨i, hi⟩ := List.getElem?_of_mem hfa
      have hfield : (assign s t).field? ⟨a, i⟩ = some f := hi
      exact offset_assign wf s hfield
    have built : ∃ v, VTable.build (assign s t) c = .ok v ∧
        VTable.Dispatches (assign s t) c v := by
      cases main : (assign s t).isMain c with
      | true => exact build_main wf' listed' hlt main
      | false =>
        have hltt : c < t.size := same.outline.size ▸ hlt
        obtain ⟨bound, slotted⟩ := exists_slotted_assign wf s hltt
          ((same.outline.isMain c).symm.trans main)
        exact slotted.build wf' listed' agree' hlt main
    obtain ⟨v, hv, dispatches⟩ := built
    obtain ⟨l, hl, hcls, hvt⟩ := ofClass_eq_ok offsets hv
    exact ⟨l, hl, hcls, hvt ▸ dispatches⟩
  obtain ⟨layout, hlayout, len, classes⟩ := ofClasses_eq_ok laid
  refine ⟨layout, by rw [compute, hlayout], by rw [len, ids, List.length_range], ?_⟩
  intro d l hl
  obtain ⟨c, hc, h⟩ := classes d l hl
  have hd : c = d := by
    obtain ⟨hlt, hget⟩ := List.getElem?_eq_some_iff.mp hc
    rw [← hget]
    exact List.getElem_range hlt
  exact hd ▸ h

end Layout

namespace VTable

variable {t : ClassTable} {d : ClassId} {v : VTable}

/-- A slot is filled by an entry for it. -/
theorem mem_of_fill {es : List (Nat × Entry)} {i : Nat} {e : Entry}
    (h : (fill es)[i]? = some (some e)) : (i, e) ∈ es := by
  rw [fill, List.getElem?_map] at h
  obtain ⟨j, hj, last⟩ := Option.map_eq_some_iff.mp h
  obtain ⟨x, hx, rfl⟩ := Option.map_eq_some_iff.mp last
  obtain ⟨hlt, heq⟩ := List.getElem?_eq_some_iff.mp hj
  obtain ⟨mem, slot⟩ := List.mem_filter.mp (List.mem_of_getLast? hx)
  rw [List.getElem_range] at heq
  have same : x.1 = i := (beq_iff_eq.mp slot).trans heq.symm
  exact same ▸ mem

/-- A table is no longer than its last entry needs. -/
theorem exists_behind (es : List (Nat × Entry)) :
    ∀ n i, i < es.foldl (fun n e => max n (e.1 + 1)) n → i < n ∨ ∃ e ∈ es, i ≤ e.1 := by
  induction es with
  | nil => exact fun n i h => Or.inl h
  | cons e es ih =>
    intro n i h
    rcases ih _ i h with within | ⟨x, hx, behind⟩
    · have within : i < max n (e.1 + 1) := within
      by_cases before : i < n
      · exact Or.inl before
      · exact Or.inr ⟨e, List.mem_cons_self, by omega⟩
    · exact Or.inr ⟨x, List.mem_cons_of_mem e hx, behind⟩

theorem exists_of_entry {r : MethodRef} {i : Nat} {e : Entry} (h : entry t r = .ok (i, e)) :
    ∃ m, t.method? r = some m ∧ m.slot? = some i ∧ e = ⟨r, m.name, t.nameOf r.cls, m.signature⟩ := by
  rw [entry] at h
  split at h
  · cases h
  · rename_i m hm
    split at h
    · cases h
    · rename_i slot hslot
      obtain ⟨rfl, rfl⟩ := Prod.mk.inj (Except.ok.inj h)
      exact ⟨m, hm, hslot, rfl⟩

theorem exists_of_entriesOf {rs : List MethodRef} :
    ∀ {es : List (Nat × Entry)}, entriesOf t rs = .ok es →
      ∀ x ∈ es, ∃ r ∈ rs, entry t r = .ok x := by
  induction rs with
  | nil =>
    intro es h x hx
    obtain rfl := Except.ok.inj h
    cases hx
  | cons r rs ih =>
    intro es h x hx
    obtain ⟨e, he, h⟩ := Layout.exists_of_bind_eq_ok h
    obtain ⟨es', hes, h⟩ := Layout.exists_of_bind_eq_ok h
    obtain rfl := Except.ok.inj h
    rcases List.mem_cons.mp hx with rfl | hx
    · exact ⟨r, List.mem_cons_self, he⟩
    · obtain ⟨q, hq, entry⟩ := ih hes x hx
      exact ⟨q, List.mem_cons_of_mem r hq, entry⟩

section Built
variable (built : VTable.build t d = .ok v) (main : t.isMain d = false)
include built main

theorem exists_of_build : ∃ es, entriesOf t (refs t d) = .ok es ∧ v = ⟨t.nameOf d, fill es⟩ := by
  rw [build, main] at built
  obtain ⟨es, hes, built⟩ := Layout.exists_of_bind_eq_ok built
  obtain rfl := Except.ok.inj built
  exact ⟨es, hes, rfl⟩

/-- What stands in a slot is a method of the class that has the slot. -/
theorem entry_of_slot {i : Nat} {e : Entry} (h : v.slots[i]? = some (some e)) :
    e.ref ∈ refs t d ∧ entry t e.ref = .ok (i, e) := by
  obtain ⟨es, hes, rfl⟩ := exists_of_build built main
  obtain ⟨r, hr, hentry⟩ := exists_of_entriesOf hes _ (mem_of_fill h)
  obtain ⟨m, _, _, rfl⟩ := exists_of_entry hentry
  exact ⟨hr, hentry⟩

/-- Up to the end of a table there are methods with larger slots. -/
theorem exists_slot_behind {i : Nat} (h : i < v.slots.length) :
    ∃ r ∈ refs t d, ∃ m j, t.method? r = some m ∧ m.slot? = some j ∧ i ≤ j := by
  obtain ⟨es, hes, rfl⟩ := exists_of_build built main
  rw [fill, List.length_map, List.length_range] at h
  rcases exists_behind es 0 i h with none | ⟨⟨j, e⟩, he, behind⟩
  · exact absurd none (Nat.not_lt_zero i)
  · obtain ⟨r, hr, hentry⟩ := exists_of_entriesOf hes _ he
    obtain ⟨m, hm, slot, _⟩ := exists_of_entry hentry
    exact ⟨r, hr, m, j, hm, slot, behind⟩

end Built

end VTable

end MiniJava
