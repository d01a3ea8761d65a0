import MiniJava.Proofs.Layout.Objects

/-!
# Layouts without gaps

If every class starts where its parent has ended, then no byte and no slot is left out: the fields
of a class stand behind those of its ancestors, one after the other, and every slot below the
counter of a class belongs to a method that the class sees. A slot is only used up by a method that
overrides nothing.
-/
namespace MiniJava

namespace Layout

open ClassTable

theorem fieldSizes_append (fs gs : List Field) :
    fieldSizes (fs ++ gs) = fieldSizes fs + fieldSizes gs := by
  induction fs with
  | nil => simp [fieldSizes]
  | cons f fs ih =>
    simp only [List.cons_append, fieldSizes, ih]
    omega

/-- Sizes do not change with offsets and marks. -/
theorem fieldSizes_congr {fs : List Field} :
    ∀ {gs : List Field}, fs.map Field.outline = gs.map Field.outline →
      fieldSizes fs = fieldSizes gs := by
  induction fs with
  | nil =>
    rintro (_ | ⟨g, gs⟩) h
    · rfl
    · cases h
  | cons f fs ih =>
    rintro (_ | ⟨g, gs⟩) h
    · cases h
    · obtain ⟨head, tail⟩ := List.cons.inj h
      have ty := congrArg Field.ty head
      have same : f.ty = g.ty := ty
      simp only [fieldSizes, same, ih tail]

theorem fieldSizes_take_succ {fs : List Field} {i : Nat} {f : Field} (hf : fs[i]? = some f) :
    fieldSizes (fs.take (i + 1)) = fieldSizes (fs.take i) + f.ty.size := by
  rw [List.take_add_one, hf, fieldSizes_append]
  rfl

theorem fieldSizes_take_le {fs : List Field} {i j : Nat} (h : i ≤ j) :
    fieldSizes (fs.take i) ≤ fieldSizes (fs.take j) := by
  obtain ⟨n, rfl⟩ := Nat.exists_eq_add_of_le h
  rw [List.take_add, fieldSizes_append]
  omega

/-- A field ends before the next one begins, and before the end of all. -/
theorem end_le_fieldSizes {fs : List Field} {i : Nat} {f : Field} (hf : fs[i]? = some f) :
    fieldSizes (fs.take i) + f.ty.size ≤ fieldSizes fs := by
  rw [← fieldSizes_take_succ hf]
  have whole : fs.take fs.length = fs := List.take_length
  have below : i + 1 ≤ fs.length := (List.getElem?_eq_some_iff.mp hf).1
  calc fieldSizes (fs.take (i + 1)) ≤ fieldSizes (fs.take fs.length) := fieldSizes_take_le below
    _ = fieldSizes fs := by rw [whole]

/-- Every byte of a row of fields belongs to one of them. -/
theorem exists_field_at (fs : List Field) :
    ∀ b < fieldSizes fs, ∃ i f, fs[i]? = some f ∧ fieldSizes (fs.take i) ≤ b ∧
      b < fieldSizes (fs.take i) + f.ty.size := by
  induction fs with
  | nil =>
    intro b hb
    exact absurd hb (Nat.not_lt_zero b)
  | cons f fs ih =>
    intro b hb
    by_cases first : b < f.ty.size
    · exact ⟨0, f, rfl, Nat.zero_le b, by simpa [fieldSizes] using first⟩
    · simp only [fieldSizes] at hb
      obtain ⟨i, g, hg, start, stop⟩ := ih (b - f.ty.size) (by omega)
      refine ⟨i + 1, g, hg, ?_, ?_⟩ <;> simp only [List.take_succ_cons, fieldSizes] <;> omega

/-- No byte of a row of fields belongs to two of them. -/
theorem field_at_unique {fs : List Field} {b i j : Nat} {f g : Field} (hf : fs[i]? = some f)
    (hg : fs[j]? = some g) (start : fieldSizes (fs.take i) ≤ b)
    (stop : b < fieldSizes (fs.take i) + f.ty.size) (start' : fieldSizes (fs.take j) ≤ b)
    (stop' : b < fieldSizes (fs.take j) + g.ty.size) : i = j := by
  rw [← fieldSizes_take_succ hf] at stop
  rw [← fieldSizes_take_succ hg] at stop'
  rcases Nat.lt_trichotomy i j with before | same | behind
  · have apart : fieldSizes (fs.take (i + 1)) ≤ fieldSizes (fs.take j) := fieldSizes_take_le before
    omega
  · exact same
  · have apart : fieldSizes (fs.take (j + 1)) ≤ fieldSizes (fs.take i) := fieldSizes_take_le behind
    omega

theorem placeFields_stop (fs : List Field) :
    ∀ start, (placeFields start fs).2 = start + fieldSizes fs := by
  induction fs with
  | nil => exact fun start => rfl
  | cons f fs ih =>
    intro start
    calc (placeFields (start + f.ty.size) fs).2 = start + f.ty.size + fieldSizes fs := ih _
      _ = start + fieldSizes (f :: fs) := Nat.add_assoc ..

/-- A field is placed behind those declared before it. -/
theorem placeFields_getElem? (fs : List Field) :
    ∀ (start i : Nat), (placeFields start fs).1[i]? =
      (fs[i]?).map fun f : Field => { f with offset := some (start + fieldSizes (fs.take i)) } := by
  induction fs with
  | nil => exact fun start i => rfl
  | cons f fs ih =>
    intro start i
    cases i with
    | zero => rfl
    | succ i =>
      have rest := ih (start + f.ty.size) i
      simp only [placeFields, List.getElem?_cons_succ, List.take_succ_cons, fieldSizes, rest,
        Nat.add_assoc]

/-- The slots below the bound are all in use. -/
def Dense (ms : List Method) (bound : Nat) : Prop :=
  ∀ s < bound, Method.slotSize ∣ s → ∃ m ∈ ms, m.slotOffset = some s

theorem Dense.mono {ms ks : List Method} {bound : Nat} (h : Dense ms bound)
    (sub : ∀ m ∈ ms, m ∈ ks) : Dense ks bound := by
  intro s hs aligned
  obtain ⟨m, hm, slot⟩ := h s hs aligned
  exact ⟨m, sub m hm, slot⟩

/-- The slot at the bound is the next one. -/
theorem Dense.cons {ms : List Method} {bound : Nat} (h : Dense ms bound) {m : Method}
    (slot : m.slotOffset = some bound) (aligned : Method.slotSize ∣ bound) :
    Dense (m :: ms) (bound + Method.slotSize) := by
  intro s hs hdvd
  by_cases below : s < bound
  · exact h.mono (fun k hk => List.mem_cons_of_mem m hk) s below hdvd
  · have same : s = bound := by
      obtain ⟨a, rfl⟩ := aligned
      obtain ⟨b, rfl⟩ := hdvd
      simp only [Method.slotSize] at hs below ⊢
      omega
    exact ⟨m, List.mem_cons_self, same ▸ slot⟩

/-- The methods of a class that override nothing use up the slots behind those of the parent. -/
theorem placeMethods_dense (t : ClassTable) (parent : Option ClassId) (ms : List Method) :
    ∀ (above : List Method) (slot : Nat), Dense above slot → Method.slotSize ∣ slot →
      Dense ((placeMethods t parent slot ms).1 ++ above) (placeMethods t parent slot ms).2 := by
  induction ms with
  | nil => exact fun above slot h _ => h
  | cons m ms ih =>
    intro above slot h aligned
    rw [placeMethods]
    split
    · exact (ih above slot h aligned).mono fun k hk => List.mem_cons_of_mem _ hk
    · have head : Dense ({ m with slotOffset := some slot } :: above) (slot + Method.slotSize) :=
        h.cons rfl aligned
      have all := ih _ _ head (Nat.dvd_add aligned (Nat.dvd_refl _))
      exact all.mono fun k hk => by simpa [or_left_comm] using hk

/-- The bytes that the fields of all proper ancestors of a class take. -/
def sizeAbove (t : ClassTable) (c : ClassId) : Nat := fieldSizes ((t.ancestors c).flatMap t.fields)

theorem fieldSizes_visibleFields (t : ClassTable) (c : ClassId) :
    fieldSizes (t.visibleFields c) = sizeAbove t c + fieldSizes (t.fields c) := by
  rw [visibleFields, chain, List.flatMap_cons, fieldSizes_append, Nat.add_comm, sizeAbove]

/-- A class whose fields stand one after the other behind those of its ancestors, and whose methods
use all slots below its counter. -/
structure Packed (t : ClassTable) (c : ClassId) (k : Counters) : Prop where
  offsets : ∀ i f, (t.fields c)[i]? = some f →
    f.offset = some (sizeAbove t c + fieldSizes ((t.fields c).take i))
  field : k.field = fieldSizes (t.visibleFields c)
  dense : Dense (t.visibleMethods c) k.slot

/-- What holds of a packed class is read from its chain only. -/
theorem Packed.congr {t u : ClassTable} (same : SameOutline u t) {c : ClassId} {k : Counters}
    (h : Packed t c k) (fields : ∀ a ∈ t.chain c, u.fields a = t.fields a)
    (methods : ∀ a ∈ t.chain c, u.methods a = t.methods a) : Packed u c k := by
  have own : u.fields c = t.fields c := fields c (mem_chain_self t c)
  have visible : u.visibleFields c = t.visibleFields c := same.flatMap_chain fields
  have above : sizeAbove u c = sizeAbove t c := by
    have sums := congrArg fieldSizes visible
    rw [fieldSizes_visibleFields, fieldSizes_visibleFields, own] at sums
    omega
  constructor
  · rw [own, above]
    exact h.offsets
  · rw [visible]
    exact h.field
  · rw [visibleMethods_congr same methods]
    exact h.dense

/-- What holds after the classes below `n`: they are packed, and the other counters are unused. -/
structure PackedBelow (t : ClassTable) (n : Nat) (st : State) : Prop where
  packed : ∀ c < n, t.isMain c = false → Packed st.table c (st.at c)
  unused : ∀ c, n ≤ c → st.at c = {}

section Class
variable {t : ClassTable} {st : State} {n : Nat}

/-- A class starts where everything that its ancestors declare has ended. -/
theorem PackedBelow.start (wf : t.WellFormed) (known : Assigned .parentPrefix t n st)
    (h : PackedBelow t n st) :
    (st.at (source .parentPrefix st.table n)).field = sizeAbove st.table n ∧
      Dense ((st.table.ancestors n).flatMap st.table.methods)
        (st.at (source .parentPrefix st.table n)).slot := by
  have same := known.same.outline
  have forest : st.table.Forest := (wf.of_sameOutline same.symm).forest
  cases hp : st.table.parent? n with
  | none =>
    have first : st.at (source .parentPrefix st.table n) = {} := by
      apply h.unused
      rw [source, hp]
      exact Nat.le_refl n
    rw [first, sizeAbove, ancestors_of_top hp]
    constructor
    · rfl
    · exact fun s hs => absurd hs (Nat.not_lt_zero s)
  | some p =>
    have parent : t.parent? n = some p := (same.parent? n).symm.trans hp
    have above := h.packed p (wf.forest parent) (wf.parent_not_main parent)
    rw [source, hp, Option.getD_some, sizeAbove, forest.ancestors_of_parent hp]
    exact ⟨above.field, above.dense⟩

/-- The next class is packed. -/
theorem PackedBelow.next (wf : t.WellFormed) (known : Assigned .parentPrefix t n st)
    (hn : n < t.size) (main : t.isMain n = false) (h : PackedBelow t n st) :
    Packed (assignClass .parentPrefix st n).table n
      ⟨(fieldsOf .parentPrefix st n).2, (methodsOf .parentPrefix st n).2⟩ := by
  have same := known.same.outline
  have same' := (sameDeclarations_assignClass .parentPrefix st n).outline
  have forest : st.table.Forest := (wf.of_sameOutline same.symm).forest
  have fields := fields_assignClass (s := .parentPrefix) ((same.isMain n).trans main)
    (same.size ▸ hn)
  have methods := methods_assignClass (s := .parentPrefix) ((same.isMain n).trans main)
    (same.size ▸ hn)
  obtain ⟨start, dense⟩ := h.start wf known
  have smaller : ∀ a ∈ st.table.ancestors n, a ≠ n := by
    intro a ha
    cases hp : st.table.parent? n with
    | none =>
      rw [ancestors_of_top hp] at ha
      cases ha
    | some p =>
      rw [forest.ancestors_of_parent hp] at ha
      exact Nat.ne_of_lt (Nat.lt_of_le_of_lt (forest.le_of_mem_chain ha) (forest hp))
  have above : sizeAbove (assignClass .parentPrefix st n).table n = sizeAbove st.table n := by
    rw [sizeAbove, sizeAbove, same'.ancestors, List.flatMap_def, List.flatMap_def]
    refine congrArg (fieldSizes ·.flatten) (List.map_congr_left fun a ha => ?_)
    rw [fields, if_neg (smaller a ha)]
  have seen : (assignClass .parentPrefix st n).table.visibleMethods n =
      (methodsOf .parentPrefix st n).1 ++
        (st.table.ancestors n).flatMap st.table.methods := by
    rw [visibleMethods, chain, List.flatMap_cons, methods, if_pos rfl, same'.ancestors]
    refine congrArg (_ ++ ·) ?_
    rw [List.flatMap_def, List.flatMap_def]
    refine congrArg List.flatten (List.map_congr_left fun a ha => ?_)
    rw [methods, if_neg (smaller a ha)]
  have placed : (assignClass .parentPrefix st n).table.fields n =
      (fieldsOf .parentPrefix st n).1 := by
    rw [fields, if_pos rfl]
  have outline : ((fieldsOf .parentPrefix st n).1).map Field.outline =
      (st.table.fields n).map Field.outline := placeFields_outline _ _
  constructor
  · intro i f hf
    have before : fieldSizes (((fieldsOf .parentPrefix st n).1).take i) =
        fieldSizes ((st.table.fields n).take i) :=
      fieldSizes_congr (by rw [List.map_take, List.map_take, outline])
    rw [placed] at hf ⊢
    rw [above, before]
    rw [fieldsOf, placeFields_getElem?] at hf
    obtain ⟨g, _, rfl⟩ := Option.map_eq_some_iff.mp hf
    rw [start]
  · rw [fieldSizes_visibleFields, above, placed, fieldSizes_congr outline, ← start]
    exact placeFields_stop _ _
  · rw [seen]
    exact placeMethods_dense _ _ _ _ _ dense (known.aligned _)

/-- What was packed before stays as it is. -/
theorem PackedBelow.kept (wf : t.WellFormed) (known : Assigned .parentPrefix t n st)
    (hn : n < t.size) (main : t.isMain n = false) (h : PackedBelow t n st) {c : Nat} (hc : c < n)
    (other : t.isMain c = false) :
    Packed (assignClass .parentPrefix st n).table c (st.at c) := by
  have same := known.same.outline
  have forest : st.table.Forest := (wf.of_sameOutline same.symm).forest
  have main' := (same.isMain n).trans main
  have hn' : n < st.table.size := same.size ▸ hn
  have smaller : ∀ a ∈ st.table.chain c, a ≠ n := fun a ha =>
    Nat.ne_of_lt (Nat.lt_of_le_of_lt (forest.le_of_mem_chain ha) hc)
  apply (h.packed c hc other).congr (sameDeclarations_assignClass .parentPrefix st n).outline
  · intro a ha
    rw [fields_assignClass main' hn', if_neg (smaller a ha)]
  · intro a ha
    rw [methods_assignClass main' hn', if_neg (smaller a ha)]

theorem PackedBelow.step (wf : t.WellFormed) (known : Assigned .parentPrefix t n st)
    (hn : n < t.size) (h : PackedBelow t n st) :
    PackedBelow t (n + 1) (assignClass .parentPrefix st n) := by
  cases main : t.isMain n with
  | true =>
    rw [assignClass_of_main ((known.same.outline.isMain n).trans main)]
    constructor
    · intro c hc other
      refine h.packed c (Nat.lt_of_le_of_ne (Nat.le_of_lt_succ hc) ?_) other
      rintro rfl
      rw [main] at other
      cases other
    · exact fun c hc => h.unused c (Nat.le_of_succ_le hc)
  | false =>
    have next := known.at_next wf hn main
    constructor
    · intro c hc other
      rcases Nat.lt_or_eq_of_le (Nat.le_of_lt_succ hc) with hlt | rfl
      · rw [next, if_neg (show c ≠ keeper .parentPrefix t n from Nat.ne_of_lt hlt)]
        exact h.kept wf known hn main hlt other
      · rw [next, if_pos (show c = keeper .parentPrefix t c from rfl)]
        exact h.next wf known hn main
    · intro c hc
      rw [next, if_neg (show c ≠ keeper .parentPrefix t n from Nat.ne_of_gt hc)]
      exact h.unused c (Nat.le_of_succ_le hc)

end Class

theorem packedBelow {t : ClassTable} (wf : t.WellFormed) (n : Nat) :
    n ≤ t.size → PackedBelow t n (assignBelow .parentPrefix t n) := by
  induction n with
  | zero =>
    intro _
    constructor
    · exact fun c hc => absurd hc (Nat.not_lt_zero c)
    · intro c _
      simp only [State.at, assignBelow, List.range_zero, List.foldl_nil, Array.getElem?_replicate]
      split <;> rfl
  | succ n ih =>
    intro hn
    rw [assignBelow, List.range_succ, List.foldl_append]
    exact (ih (Nat.le_of_succ_le hn)).step wf
      (assigned_below wf .parentPrefix n (Nat.le_of_succ_le hn)) hn

/-- Every class but the main class is packed and slotted, below one counter, once all classes are
laid out. -/
theorem exists_packed_assign {t : ClassTable} (wf : t.WellFormed) {c : ClassId} (hc : c < t.size)
    (main : t.isMain c = false) :
    ∃ k, Packed (assign .parentPrefix t) c k ∧ Slotted (assign .parentPrefix t) c k.slot :=
  ⟨_, (packedBelow wf t.size (Nat.le_refl _)).packed c hc main,
    (assigned_below wf .parentPrefix t.size (Nat.le_refl _)).slotted c hc main⟩

end Layout

end MiniJava
