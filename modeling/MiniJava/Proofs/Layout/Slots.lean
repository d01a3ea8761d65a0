import MiniJava.Layout.Assign
import MiniJava.Proofs.Class.WellFormed

/-!
# Slots in the tables of methods

The slots handed out to the methods that a class sees are below its counter, and methods of
different names never share one. Classes get their slots in order, so this is kept class by class:
what a class sees is what its parent sees and its own methods, whose new slots start where the
counter of the parent stands, and whose other slots are those of the methods they override.
-/
namespace MiniJava.Layout

open ClassTable

/-- Every method has a slot below the bound, and methods of different names have different ones. -/
structure Apart (ms : List Method) (bound : Nat) : Prop where
  placed : ∀ m ∈ ms, ∃ s, m.slotOffset = some s ∧ s < bound ∧ Method.slotSize ∣ s
  distinct : ∀ m ∈ ms, ∀ k ∈ ms, m.slotOffset = k.slotOffset → m.name = k.name

theorem Apart.of_subset {ms ks : List Method} {bound : Nat} (h : Apart ms bound)
    (sub : ∀ k ∈ ks, k ∈ ms) : Apart ks bound :=
  ⟨fun k hk => h.placed k (sub k hk), fun k hk l hl => h.distinct k (sub k hk) l (sub l hl)⟩

theorem Apart.mono {ms : List Method} {bound bound' : Nat} (h : Apart ms bound)
    (le : bound ≤ bound') : Apart ms bound' := by
  refine ⟨fun m hm => ?_, h.distinct⟩
  obtain ⟨s, hs, hlt, hdvd⟩ := h.placed m hm
  exact ⟨s, hs, Nat.lt_of_lt_of_le hlt le, hdvd⟩

/-- A method may take the slot of another one of its name. -/
theorem Apart.cons_same {ms : List Method} {bound : Nat} (h : Apart ms bound) {m k : Method}
    (hk : k ∈ ms) (name : m.name = k.name) (slot : m.slotOffset = k.slotOffset) :
    Apart (m :: ms) bound := by
  constructor
  · intro l hl
    rcases List.mem_cons.mp hl with rfl | hl
    · exact slot ▸ h.placed k hk
    · exact h.placed l hl
  · intro l hl l' hl' heq
    rcases List.mem_cons.mp hl with hlm | hlm <;> rcases List.mem_cons.mp hl' with hlm' | hlm'
    · rw [hlm, hlm']
    · rw [hlm] at heq ⊢
      exact name.trans (h.distinct k hk l' hlm' (slot.symm.trans heq))
    · rw [hlm'] at heq ⊢
      exact (h.distinct l hlm k hk (heq.trans slot)).trans name.symm
    · exact h.distinct l hlm l' hlm' heq

/-- The slot at the bound is free. -/
theorem Apart.cons_new {ms : List Method} {bound : Nat} (h : Apart ms bound) {m : Method}
    (slot : m.slotOffset = some bound) (aligned : Method.slotSize ∣ bound) :
    Apart (m :: ms) (bound + Method.slotSize) := by
  have free : ∀ k ∈ ms, k.slotOffset ≠ some bound := by
    intro k hk heq
    obtain ⟨s, hs, hlt, _⟩ := h.placed k hk
    obtain rfl := Option.some.inj (hs.symm.trans heq)
    exact Nat.lt_irrefl _ hlt
  constructor
  · intro l hl
    rcases List.mem_cons.mp hl with rfl | hl
    · exact ⟨bound, slot, Nat.lt_add_of_pos_right (by decide), aligned⟩
    · exact (h.mono (Nat.le_add_right _ _)).placed l hl
  · intro l hl l' hl' heq
    rcases List.mem_cons.mp hl with hlm | hlm <;> rcases List.mem_cons.mp hl' with hlm' | hlm'
    · rw [hlm, hlm']
    · rw [hlm] at heq
      exact absurd (heq.symm.trans slot) (free l' hlm')
    · rw [hlm'] at heq
      exact absurd (heq.trans slot) (free l hlm)
    · exact h.distinct l hlm l' hlm' heq

section Place
variable (t : ClassTable) (parent : Option ClassId)

theorem placeMethods_declared (ms : List Method) :
    ∀ slot, (placeMethods t parent slot ms).1.map Method.declared = ms.map Method.declared := by
  induction ms with
  | nil => intro slot; rfl
  | cons m ms ih =>
    intro slot
    rw [placeMethods]
    split
    · exact congrArg (m.declared :: ·) (ih slot)
    · exact congrArg (m.declared :: ·) (ih (slot + Method.slotSize))

theorem le_placeMethods (ms : List Method) :
    ∀ slot, slot ≤ (placeMethods t parent slot ms).2 := by
  induction ms with
  | nil => intro slot; exact Nat.le_refl slot
  | cons m ms ih =>
    intro slot
    rw [placeMethods]
    split
    · exact ih slot
    · exact Nat.le_trans (Nat.le_add_right _ _) (ih (slot + Method.slotSize))

theorem dvd_placeMethods (ms : List Method) :
    ∀ slot, Method.slotSize ∣ slot → Method.slotSize ∣ (placeMethods t parent slot ms).2 := by
  induction ms with
  | nil => intro slot h; exact h
  | cons m ms ih =>
    intro slot h
    rw [placeMethods]
    split
    · exact ih slot h
    · exact ih _ (Nat.dvd_add h (Nat.dvd_refl _))

theorem placeMethods_overridden (ms : List Method) :
    ∀ slot, ∀ m ∈ (placeMethods t parent slot ms).1, ∀ s,
      overridden? t parent m.name = some s → m.slotOffset = some s := by
  induction ms with
  | nil => intro slot m hm; cases hm
  | cons k ms ih =>
    intro slot m hm s hs
    rw [placeMethods] at hm
    split at hm
    · rename_i o ho
      rcases List.mem_cons.mp hm with rfl | hm
      · exact ho.symm.trans hs
      · exact ih _ m hm s hs
    · rename_i ho
      rcases List.mem_cons.mp hm with rfl | hm
      · exact absurd (ho.symm.trans hs) (by simp)
      · exact ih _ m hm s hs

/-- The methods of a class join those it sees above. -/
theorem placeMethods_apart (ms : List Method) :
    ∀ (above : List Method) (slot : Nat), Apart above slot → Method.slotSize ∣ slot →
      (∀ n s, overridden? t parent n = some s → ∃ k ∈ above, k.name = n ∧ k.slotOffset = some s) →
      Apart ((placeMethods t parent slot ms).1 ++ above) (placeMethods t parent slot ms).2 := by
  induction ms with
  | nil => intro above slot h _ _; exact h
  | cons m ms ih =>
    intro above slot h aligned seen
    rw [placeMethods]
    split
    · rename_i s hs
      obtain ⟨k, hk, name, hslot⟩ := seen m.name s hs
      have head : Apart ({ m with slotOffset := some s } :: above) slot :=
        h.cons_same hk name.symm hslot.symm
      have all := ih _ slot head aligned fun n s hs =>
        (seen n s hs).imp fun k hk => ⟨List.mem_cons_of_mem _ hk.1, hk.2⟩
      exact all.of_subset fun l hl => by simpa [or_left_comm] using hl
    · have head : Apart ({ m with slotOffset := some slot } :: above) (slot + Method.slotSize) :=
        h.cons_new rfl aligned
      have all := ih _ _ head (Nat.dvd_add aligned (Nat.dvd_refl _)) fun n s hs =>
        (seen n s hs).imp fun k hk => ⟨List.mem_cons_of_mem _ hk.1, hk.2⟩
      exact all.of_subset fun l hl => by simpa [or_left_comm] using hl

theorem placeFields_outline (fs : List Field) :
    ∀ offset, (placeFields offset fs).1.map Field.outline = fs.map Field.outline := by
  induction fs with
  | nil => intro offset; rfl
  | cons f fs ih =>
    intro offset
    exact congrArg (f.outline :: ·) (ih (offset + f.ty.size))

theorem placeFields_placed (fs : List Field) :
    ∀ offset, ∀ f ∈ (placeFields offset fs).1, f.offset.isSome := by
  induction fs with
  | nil => intro offset f hf; cases hf
  | cons g fs ih =>
    intro offset f hf
    rcases List.mem_cons.mp hf with rfl | hf
    · rfl
    · exact ih _ f hf

end Place

/-- What a class sees has slots below the bound that are apart, and overriding methods have the
slots of what they override. -/
structure Slotted (t : ClassTable) (c : ClassId) (bound : Nat) : Prop where
  apart : Apart (t.visibleMethods c) bound
  overriding : ∀ a ∈ t.chain c, ∀ m ∈ t.methods a, ∀ s,
    overridden? t (t.parent? a) m.name = some s → m.slotOffset = some s

theorem Slotted.mono {t : ClassTable} {c : ClassId} {bound bound' : Nat} (h : Slotted t c bound)
    (le : bound ≤ bound') : Slotted t c bound' := ⟨h.apart.mono le, h.overriding⟩

theorem visibleMethods_of_top {t : ClassTable} {c : ClassId} (hc : t.parent? c = none) :
    t.visibleMethods c = t.methods c := flatMap_chain_of_top hc t.methods

theorem visibleMethods_of_parent {t : ClassTable} (h : t.Forest) {c p : ClassId}
    (hp : t.parent? c = some p) :
    t.visibleMethods c = t.methods c ++ t.visibleMethods p := h.flatMap_chain_of_parent hp t.methods

/-- What a class sees is read from its chain only. -/
theorem visibleMethods_congr {t u : ClassTable} (same : SameOutline u t) {c : ClassId}
    (methods : ∀ a ∈ t.chain c, u.methods a = t.methods a) :
    u.visibleMethods c = t.visibleMethods c := same.flatMap_chain methods

theorem mem_visibleMethods {t : ClassTable} {c : ClassId} {m : Method} :
    m ∈ t.visibleMethods c ↔ ∃ a ∈ t.chain c, m ∈ t.methods a := List.mem_flatMap

/-- What a class overrides is seen by its parent. -/
theorem overridden?_eq_some {t : ClassTable} {p : ClassId} {n : Name} {s : Nat}
    (hs : overridden? t (some p) n = some s) :
    ∃ k ∈ t.visibleMethods p, k.name = n ∧ k.slotOffset = some s := by
  obtain ⟨r, hr, hs⟩ := Option.bind_eq_some_iff.mp hs
  obtain ⟨k, hk, hs⟩ := Option.bind_eq_some_iff.mp hs
  obtain ⟨k', hk', name⟩ := exists_method_of_find hr
  obtain rfl := Option.some.inj (hk.symm.trans hk')
  exact ⟨k, mem_visibleMethods.mpr ⟨r.cls, (findMethod?_eq_some hr).1, mem_methods_of_method? hk⟩,
    name, hs⟩

/-- Slots of a class are read from its chain only. -/
theorem overridden?_congr {t u : ClassTable} (same : SameOutline u t) {p : ClassId}
    (methods : ∀ a ∈ t.chain p, u.methods a = t.methods a) (n : Name) :
    overridden? u (some p) n = overridden? t (some p) n := by
  have heq : (t.findMethod? p n).bind (fun r => (u.method? r).bind (·.slotOffset)) =
      (t.findMethod? p n).bind fun r => (t.method? r).bind (·.slotOffset) := by
    cases hr : t.findMethod? p n with
    | none => rfl
    | some r =>
      rw [Option.bind_some, Option.bind_some, method?, methods r.cls (findMethod?_eq_some hr).1]
      rfl
  exact (congrArg (fun o => Option.bind o fun r => (u.method? r).bind (·.slotOffset))
    (same.findMethod? p n)).trans heq

theorem Slotted.congr {t u : ClassTable} (forest : t.Forest) (same : SameOutline u t) {c : ClassId}
    {bound : Nat} (h : Slotted t c bound) (methods : ∀ a ∈ t.chain c, u.methods a = t.methods a) :
    Slotted u c bound := by
  refine ⟨visibleMethods_congr same methods ▸ h.apart, ?_⟩
  intro a ha m hm s hs
  rw [same.chain] at ha
  rw [methods a ha] at hm
  rw [same.parent?] at hs
  cases hp : t.parent? a with
  | none =>
    rw [hp] at hs
    cases hs
  | some p =>
    rw [hp, overridden?_congr same] at hs
    · exact h.overriding a ha m hm s (hp ▸ hs)
    · intro b hb
      apply methods b
      have hdown := (forest.mem_chain_iff.mp ha).trans (.up hp (forest.mem_chain_iff.mp hb))
      exact forest.mem_chain_iff.mpr hdown

/-- One class after its parent: its own methods join what the parent sees. -/
theorem slotted_of_placed {t u : ClassTable} (forest : t.Forest) (same : SameOutline u t)
    {c : ClassId} {start : Nat} (aligned : Method.slotSize ∣ start)
    (above : ∀ p, t.parent? c = some p → Slotted t p start)
    (own : u.methods c = (placeMethods t (t.parent? c) start (t.methods c)).1)
    (others : ∀ a, a ≠ c → u.methods a = t.methods a) :
    Slotted u c (placeMethods t (t.parent? c) start (t.methods c)).2 := by
  cases hp : t.parent? c with
  | none =>
    rw [hp] at own
    have hpu : u.parent? c = none := (same.parent? c).trans hp
    have apart := placeMethods_apart t none (t.methods c) [] start
      ⟨fun m hm => (by cases hm), fun m hm => (by cases hm)⟩ aligned fun n s hs => by cases hs
    rw [List.append_nil, ← own] at apart
    refine ⟨visibleMethods_of_top hpu ▸ apart, ?_⟩
    intro a ha m hm s hs
    rw [chain_of_top hpu, List.mem_singleton] at ha
    rw [ha, hpu] at hs
    cases hs
  | some p =>
    rw [hp] at own
    have hpu : u.parent? c = some p := (same.parent? c).trans hp
    have unchanged : ∀ a ∈ t.chain p, u.methods a = t.methods a := fun a ha =>
      others a (Nat.ne_of_lt (Nat.lt_of_le_of_lt (forest.le_of_mem_chain ha) (forest hp)))
    have parent := (above p hp).congr forest same unchanged
    have forest' : u.Forest := fun hq => forest ((same.parent? _).symm.trans hq)
    have apart := placeMethods_apart t (some p) (t.methods c) (t.visibleMethods p) start
      (above p hp).apart aligned fun n s hs => overridden?_eq_some hs
    refine ⟨?_, ?_⟩
    · rw [visibleMethods_of_parent forest' hpu, own, visibleMethods_congr same unchanged]
      exact apart
    · intro a ha m hm s hs
      rw [forest'.chain_of_parent hpu] at ha
      rcases List.mem_cons.mp ha with rfl | ha
      · rw [own] at hm
        rw [hpu, overridden?_congr same unchanged] at hs
        exact placeMethods_overridden t (some p) _ start m hm s hs
      · exact parent.overriding a ha m hm s hs

end MiniJava.Layout
