import MiniJava.Proofs.Layout.Slots

/-!
# Counters of the layout

The classes are laid out in the order of their numbers, so the parent of a class is laid out before
it. A class goes on where its parent has ended, under either strategy: with one counter for a tree
the class, its parent and all others of the tree read the same one, which only grows.
-/
namespace MiniJava.Layout

open ClassTable

/-- The counters kept under the number of a class. -/
def State.at (st : State) (c : ClassId) : Counters := (st.counters[c]?).getD {}

/-- The state before class `n` is laid out. -/
def assignBelow (s : Strategy) (t : ClassTable) (n : Nat) : State :=
  (List.range n).foldl (assignClass s) ⟨t, Array.replicate t.size {}⟩

/-- What holds after the classes below `n`. -/
structure Assigned (s : Strategy) (t : ClassTable) (n : Nat) (st : State) : Prop where
  same : SameDeclarations st.table t
  size : st.counters.size = t.size
  aligned : ∀ c, Method.slotSize ∣ (st.at c).slot
  slotted : ∀ c < n, t.isMain c = false → Slotted st.table c (st.at (keeper s t c)).slot
  placed : ∀ c < n, t.isMain c = false → ∀ f ∈ st.table.fields c, f.offset.isSome

theorem source_of_parent {s : Strategy} {t : ClassTable} (forest : t.Forest) {c p : ClassId}
    (hp : t.parent? c = some p) : source s t c = keeper s t p := by
  cases s with
  | sharedRootCounter => exact forest.root_of_parent hp
  | parentPrefix =>
    rw [source, hp]
    rfl

theorem keeper_le {t : ClassTable} (forest : t.Forest) (s : Strategy) (c : ClassId) :
    keeper s t c ≤ c := by
  cases s with
  | sharedRootCounter => exact forest.root_le c
  | parentPrefix => exact Nat.le_refl c

/-- A counter that another class keeps as well is the one that a class starts from. -/
theorem source_eq_of_keeper_eq {s : Strategy} {t : ClassTable} {c d : ClassId} (hne : c ≠ d)
    (heq : keeper s t c = keeper s t d) : source s t d = keeper s t c := by
  cases s with
  | sharedRootCounter => exact heq.symm
  | parentPrefix => exact absurd heq hne

theorem source_congr {t u : ClassTable} (same : SameOutline u t) (s : Strategy) (c : ClassId) :
    source s u c = source s t c := by
  cases s with
  | sharedRootCounter => exact same.root c
  | parentPrefix => rw [source, same.parent?]; rfl

theorem keeper_congr {t u : ClassTable} (same : SameOutline u t) (s : Strategy) (c : ClassId) :
    keeper s u c = keeper s t c := by
  cases s with
  | sharedRootCounter => exact same.root c
  | parentPrefix => rfl

section Class
variable {s : Strategy} {t : ClassTable} {st : State} {n : ClassId}

theorem assignClass_of_main (main : st.table.isMain n = true) : assignClass s st n = st := by
  rw [assignClass, if_pos main]

/-- The fields and the first free offset after class `n` is laid out. -/
def fieldsOf (s : Strategy) (st : State) (n : ClassId) : List Field × Nat :=
  placeFields (st.at (source s st.table n)).field (st.table.fields n)

/-- The methods and the first free slot after class `n` is laid out. -/
def methodsOf (s : Strategy) (st : State) (n : ClassId) : List Method × Nat :=
  placeMethods st.table (st.table.parent? n) (st.at (source s st.table n)).slot (st.table.methods n)

theorem assignClass_of_not_main (main : st.table.isMain n = false) :
    assignClass s st n =
      ⟨st.table.modify n fun k =>
          { k with fields := (fieldsOf s st n).1, methods := (methodsOf s st n).1 },
        st.counters.setIfInBounds (keeper s st.table n)
          ⟨(fieldsOf s st n).2, (methodsOf s st n).2⟩⟩ := by
  rw [assignClass, main]
  rfl

theorem methods_assignClass (main : st.table.isMain n = false) (hn : n < st.table.size)
    (c : ClassId) :
    (assignClass s st n).table.methods c =
      if c = n then (methodsOf s st n).1 else st.table.methods c := by
  obtain ⟨k, hk⟩ := get?_of_lt_size hn
  rw [assignClass_of_not_main main, ClassTable.methods, get?_modify]
  by_cases hc : c = n
  · rw [if_pos hc, hc, hk, Option.map_some, if_pos rfl]
    rfl
  · simp only [if_neg hc, if_neg (Ne.symm hc), Option.map_id']
    rfl

theorem fields_assignClass (main : st.table.isMain n = false) (hn : n < st.table.size)
    (c : ClassId) :
    (assignClass s st n).table.fields c =
      if c = n then (fieldsOf s st n).1 else st.table.fields c := by
  obtain ⟨k, hk⟩ := get?_of_lt_size hn
  rw [assignClass_of_not_main main, ClassTable.fields, get?_modify]
  by_cases hc : c = n
  · rw [if_pos hc, hc, hk, Option.map_some, if_pos rfl]
    rfl
  · simp only [if_neg hc, if_neg (Ne.symm hc), Option.map_id']
    rfl

theorem sameDeclarations_assignClass (s : Strategy) (st : State) (n : ClassId) :
    SameDeclarations (assignClass s st n).table st.table := by
  cases main : st.table.isMain n with
  | true => rw [assignClass_of_main main]; exact .refl _
  | false =>
    rw [assignClass_of_not_main main]
    apply sameDeclarations_modify
    intro k hk
    have fields : st.table.fields n = k.fields := by rw [ClassTable.fields, hk]; rfl
    have methods : st.table.methods n = k.methods := by rw [ClassTable.methods, hk]; rfl
    simp only [Class.declared, fieldsOf, methodsOf, placeFields_outline, placeMethods_declared,
      fields, methods]

theorem at_assignClass (main : st.table.isMain n = false)
    (hk : keeper s st.table n < st.counters.size) (c : ClassId) :
    (assignClass s st n).at c =
      if c = keeper s st.table n then ⟨(fieldsOf s st n).2, (methodsOf s st n).2⟩ else st.at c := by
  rw [assignClass_of_not_main main, State.at, State.at, Array.getElem?_setIfInBounds]
  by_cases hc : c = keeper s st.table n
  · rw [if_pos hc.symm, if_pos hc, if_pos hk]
    rfl
  · rw [if_neg (Ne.symm hc), if_neg hc]

/-- The counters after a class: only those that it keeps are new. -/
theorem Assigned.at_next (wf : t.WellFormed) (h : Assigned s t n st) (hn : n < t.size)
    (main : t.isMain n = false) (c : ClassId) :
    (assignClass s st n).at c =
      if c = keeper s t n then ⟨(fieldsOf s st n).2, (methodsOf s st n).2⟩ else st.at c := by
  have same := h.same.outline
  have hkeeper : keeper s st.table n < st.counters.size := by
    rw [h.size, keeper_congr same]
    exact Nat.lt_of_le_of_lt (keeper_le wf.forest s n) hn
  rw [at_assignClass ((same.isMain n).trans main) hkeeper, keeper_congr same]

/-- The main class is passed over. -/
theorem Assigned.step_main (h : Assigned s t n st) (main : t.isMain n = true) :
    Assigned s t (n + 1) (assignClass s st n) := by
  have below : ∀ c < n + 1, t.isMain c = false → c < n := by
    intro c hc hcm
    refine Nat.lt_of_le_of_ne (Nat.le_of_lt_succ hc) fun heq => ?_
    rw [heq, main] at hcm
    cases hcm
  rw [assignClass_of_main ((h.same.outline.isMain n).trans main)]
  exact ⟨h.same, h.size, h.aligned, fun c hc hm => h.slotted c (below c hc hm) hm,
    fun c hc hm => h.placed c (below c hc hm) hm⟩

/-- A class is laid out after all that have smaller numbers. -/
theorem Assigned.step_class (wf : t.WellFormed) (h : Assigned s t n st) (hn : n < t.size)
    (main : t.isMain n = false) : Assigned s t (n + 1) (assignClass s st n) := by
  have same := h.same.outline
  have next := h.at_next wf hn main
  have main := (same.isMain n).trans main
  have hnst : n < st.table.size := same.size ▸ hn
  have same' := sameDeclarations_assignClass s st n
  have forest : st.table.Forest := (wf.of_sameOutline same.symm).forest
  have start : source s st.table n = source s t n := source_congr same s n
  have others : ∀ a, a ≠ n → (assignClass s st n).table.methods a = st.table.methods a := by
    intro a ha
    rw [methods_assignClass main hnst, if_neg ha]
  have counter : ((assignClass s st n).at (keeper s t n)).slot = (methodsOf s st n).2 := by
    rw [next, if_pos rfl]
  refine ⟨same'.trans h.same, ?_, ?_, ?_, ?_⟩
  · rw [assignClass_of_not_main main, Array.size_setIfInBounds, h.size]
  · intro c
    rw [next]
    split
    · exact dvd_placeMethods _ _ _ _ (h.aligned _)
    · exact h.aligned c
  · intro c hc hcm
    rcases Nat.lt_or_eq_of_le (Nat.le_of_lt_succ hc) with hlt | heq
    · have before := (h.slotted c hlt hcm).congr forest same'.outline fun a ha =>
        others a (Nat.ne_of_lt (Nat.lt_of_le_of_lt (forest.le_of_mem_chain ha) hlt))
      refine before.mono ?_
      by_cases hk : keeper s t c = keeper s t n
      · rw [hk, counter, methodsOf, start, source_eq_of_keeper_eq (Nat.ne_of_lt hlt) hk, hk]
        exact le_placeMethods ..
      · have unchanged : (assignClass s st n).at (keeper s t c) = st.at (keeper s t c) := by
          rw [next, if_neg hk]
        exact Nat.le_of_eq (congrArg Counters.slot unchanged.symm)
    · rw [heq, counter]
      refine slotted_of_placed forest same'.outline (h.aligned _) ?_ ?_ others
      · intro p hp
        have hpt : t.parent? n = some p := (same.parent? n).symm.trans hp
        rw [start, source_of_parent wf.forest hpt]
        exact h.slotted p (wf.forest hpt) (wf.parent_not_main hpt)
      · rw [methods_assignClass main hnst, if_pos rfl]
        rfl
  · intro c hc hcm
    rw [fields_assignClass main hnst]
    by_cases heq : c = n
    · rw [if_pos heq]
      exact placeFields_placed _ _
    · rw [if_neg heq]
      exact h.placed c (Nat.lt_of_le_of_ne (Nat.le_of_lt_succ hc) heq) hcm

theorem Assigned.step (wf : t.WellFormed) (h : Assigned s t n st) (hn : n < t.size) :
    Assigned s t (n + 1) (assignClass s st n) := by
  cases main : t.isMain n with
  | true => exact h.step_main main
  | false => exact h.step_class wf hn main

end Class

theorem assigned_below {t : ClassTable} (wf : t.WellFormed) (s : Strategy) (n : Nat) :
    n ≤ t.size → Assigned s t n (assignBelow s t n) := by
  induction n with
  | zero =>
    intro _
    have zero : ∀ c, (assignBelow s t 0).at c = {} := by
      intro c
      simp only [State.at, assignBelow, List.range_zero, List.foldl_nil, Array.getElem?_replicate]
      split <;> rfl
    refine ⟨.refl t, Array.size_replicate, ?_, ?_, ?_⟩
    · intro c
      rw [zero]
      exact Nat.dvd_zero _
    · intro c hc
      exact absurd hc (Nat.not_lt_zero c)
    · intro c hc
      exact absurd hc (Nat.not_lt_zero c)
  | succ n ih =>
    intro hn
    rw [assignBelow, List.range_succ, List.foldl_append]
    exact (ih (Nat.le_of_succ_le hn)).step wf hn

theorem assigned {t : ClassTable} (wf : t.WellFormed) (s : Strategy) :
    ∃ st, assign s t = st.table ∧ Assigned s t t.size st :=
  ⟨_, rfl, assigned_below wf s t.size (Nat.le_refl _)⟩

theorem sameDeclarations_assign {t : ClassTable} (wf : t.WellFormed) (s : Strategy) :
    SameDeclarations (assign s t) t := by
  obtain ⟨st, hst, h⟩ := assigned wf s
  exact hst ▸ h.same

/-- Every class is slotted once all are laid out. -/
theorem exists_slotted_assign {t : ClassTable} (wf : t.WellFormed) (s : Strategy) {c : ClassId}
    (hc : c < t.size) (main : t.isMain c = false) : ∃ bound, Slotted (assign s t) c bound := by
  obtain ⟨st, hst, h⟩ := assigned wf s
  exact ⟨_, hst ▸ h.slotted c hc main⟩

theorem offset_assign {t : ClassTable} (wf : t.WellFormed) (s : Strategy) {r : FieldRef}
    {f : Field} (hf : (assign s t).field? r = some f) : f.offset.isSome := by
  obtain ⟨st, hst, h⟩ := assigned wf s
  rw [hst] at hf
  have wf' : st.table.WellFormed := wf.of_sameOutline h.same.outline.symm
  have main : t.isMain r.cls = false :=
    (h.same.outline.isMain r.cls).symm.trans (wf'.not_main_of_field? hf)
  have hlt : r.cls < t.size := by
    rw [← h.same.outline.size]
    cases hk : st.table.get? r.cls with
    | none => simp [field?, ClassTable.fields, hk] at hf
    | some k => exact lt_size_of_get? hk
  exact h.placed r.cls hlt main f (List.mem_of_getElem? hf)

end MiniJava.Layout
