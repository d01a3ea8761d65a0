import MiniJava.Layout.Object
import MiniJava.Proofs.Layout.Counters

/-!
# Layouts one after the other

A layout is computed in a table that may have been laid out before, and the slot of an overridden
method is read back from there. It is read from an ancestor, though, and an ancestor has got its new
slot by then. So nothing is left of what earlier layouts wrote into the table.
-/
namespace MiniJava

def Field.unplaced (f : Field) : Field := { f with offset := none }

def Method.unplaced (m : Method) : Method := { m with slotOffset := none }

/-- A class without offsets and slots. The main class keeps them, as no layout writes them. -/
def Class.unplaced (k : Class) : Class :=
  if k.isMain then k
  else { k with fields := k.fields.map Field.unplaced, methods := k.methods.map Method.unplaced }

namespace Class

theorem unplaced_of_main {k : Class} (main : k.isMain = true) : k.unplaced = k := by
  rw [unplaced, if_pos main]

theorem unplaced_of_not_main {k : Class} (main : k.isMain = false) :
    k.unplaced = { k with
      fields := k.fields.map Field.unplaced
      methods := k.methods.map Method.unplaced } := by
  rw [unplaced, main]
  rfl

theorem isMain_unplaced (k : Class) : k.unplaced.isMain = k.isMain := by
  rw [unplaced]
  split <;> rfl

theorem outline_unplaced (k : Class) : k.unplaced.outline = k.outline := by
  cases main : k.isMain with
  | true => rw [unplaced_of_main main]
  | false =>
    simp only [unplaced_of_not_main main, outline, List.map_map]
    rfl

/-- Once it has new offsets and slots, nothing tells what it had before. -/
theorem eq_of_unplaced {k l : Class} (h : l.unplaced = k.unplaced) (main : l.isMain = false)
    (fields : List Field) (methods : List Method) :
    { k with fields, methods } = { l with fields, methods } := by
  have main' : k.isMain = false := by rw [← k.isMain_unplaced, ← h, l.isMain_unplaced, main]
  rw [unplaced_of_not_main main, unplaced_of_not_main main'] at h
  have same := congrArg (fun c : Class => { c with fields, methods }) h
  exact same.symm

end Class

/-- Two tables of one size are the same if they have the same names and classes. -/
theorem ClassTable.eq_of_get? {t u : ClassTable} (names : u.byName = t.byName)
    (size : u.size = t.size) (classes : ∀ c < u.size, u.get? c = t.get? c) : u = t := by
  refine ClassTable.ext (Array.ext size fun c hc hc' => ?_) names
  have same := classes c hc
  simpa only [ClassTable.get?, Array.getElem?_eq_getElem hc, Array.getElem?_eq_getElem hc',
    Option.some.injEq] using same

theorem ClassTable.forest_iff {t : ClassTable} :
    t.Forest ↔ ∀ c < t.size, ∀ p ∈ t.parent? c, p < c := by
  constructor
  · intro forest c _ p hp
    exact forest hp
  · intro h c p hp
    obtain ⟨k, hk, _⟩ := Option.bind_eq_some_iff.mp hp
    exact h c (lt_size_of_get? hk) p hp

instance (t : ClassTable) : Decidable t.Forest := decidable_of_iff _ ClassTable.forest_iff.symm

/-- The table without offsets and slots. -/
def ClassTable.unplaced (t : ClassTable) : ClassTable := t.map Class.unplaced

namespace Layout

open ClassTable

/-- Tables that differ in offsets and slots only declare the same. -/
theorem sameOutline_of_unplaced {t u : ClassTable} (h : u.unplaced = t.unplaced) :
    SameOutline u t := by
  have outline : Class.outline ∘ Class.unplaced = Class.outline := funext Class.outline_unplaced
  have same := congrArg (ClassTable.map Class.outline) h
  simp only [ClassTable.unplaced, map_map, outline] at same
  exact same

/-- What two tables that differ in offsets and slots only have in one place. -/
theorem exists_get?_of_unplaced {t u : ClassTable} (h : u.unplaced = t.unplaced) {c : ClassId}
    {k : Class} (hk : u.get? c = some k) : ∃ l, t.get? c = some l ∧ l.unplaced = k.unplaced := by
  have same := congrArg (ClassTable.get? · c) h
  simp only [ClassTable.unplaced, get?_map, hk] at same
  exact Option.map_eq_some_iff.mp same.symm

theorem members_of_unplaced {t u : ClassTable} (h : u.unplaced = t.unplaced) {c : ClassId}
    (main : t.isMain c = false) :
    (u.fields c).map Field.unplaced = (t.fields c).map Field.unplaced ∧
      (u.methods c).map Method.unplaced = (t.methods c).map Method.unplaced := by
  have same := congrArg (ClassTable.get? · c) h
  simp only [ClassTable.unplaced, get?_map] at same
  cases hk : u.get? c with
  | none =>
    rw [hk] at same
    have hl := Option.map_eq_none_iff.mp same.symm
    simp only [ClassTable.fields, ClassTable.methods, hk, hl, and_self]
  | some k =>
    obtain ⟨l, hl, unplaced⟩ := exists_get?_of_unplaced h hk
    have other : l.isMain = false := by simpa [isMain, hl] using main
    have other' : k.isMain = false := by
      rw [← k.isMain_unplaced, ← unplaced, l.isMain_unplaced, other]
    rw [Class.unplaced_of_not_main other, Class.unplaced_of_not_main other'] at unplaced
    have fields := congrArg Class.fields unplaced
    have methods := congrArg Class.methods unplaced
    simp only [ClassTable.fields, ClassTable.methods, hk, hl]
    exact ⟨fields.symm, methods.symm⟩

theorem placeFields_of_unplaced (fs : List Field) :
    ∀ offset, placeFields offset (fs.map Field.unplaced) = placeFields offset fs := by
  induction fs with
  | nil => intro offset; rfl
  | cons f fs ih =>
    intro offset
    rw [List.map_cons, placeFields, placeFields]
    dsimp only [Field.unplaced] at ih ⊢
    rw [ih]

theorem placeMethods_of_unplaced (t : ClassTable) (parent : Option ClassId) (ms : List Method) :
    ∀ slot, placeMethods t parent slot (ms.map Method.unplaced) =
      placeMethods t parent slot ms := by
  induction ms with
  | nil => intro slot; rfl
  | cons m ms ih =>
    intro slot
    rw [List.map_cons, placeMethods, placeMethods]
    dsimp only [Method.unplaced] at ih ⊢
    simp only [ih]

theorem placeFields_unplaced (fs : List Field) :
    ∀ offset, (placeFields offset fs).1.map Field.unplaced = fs.map Field.unplaced := by
  induction fs with
  | nil => intro offset; rfl
  | cons f fs ih =>
    intro offset
    exact congrArg (f.unplaced :: ·) (ih (offset + f.ty.size))

theorem placeMethods_unplaced (t : ClassTable) (parent : Option ClassId) (ms : List Method) :
    ∀ slot, (placeMethods t parent slot ms).1.map Method.unplaced = ms.map Method.unplaced := by
  induction ms with
  | nil => intro slot; rfl
  | cons m ms ih =>
    intro slot
    rw [placeMethods]
    split
    · exact congrArg (m.unplaced :: ·) (ih slot)
    · exact congrArg (m.unplaced :: ·) (ih (slot + Method.slotSize))

/-- Of the table only the slots of overridden methods are read. -/
theorem placeMethods_congr {t u : ClassTable} {parent : Option ClassId}
    (same : ∀ n, overridden? u parent n = overridden? t parent n) (ms : List Method) :
    ∀ slot, placeMethods u parent slot ms = placeMethods t parent slot ms := by
  induction ms with
  | nil => intro slot; rfl
  | cons m ms ih =>
    intro slot
    simp only [placeMethods, same, ih]

/-- A class gets new offsets and slots, and no other change. -/
theorem unplaced_assignClass (s : Strategy) (st : State) (n : ClassId) :
    (assignClass s st n).table.unplaced = st.table.unplaced := by
  cases main : st.table.isMain n with
  | true => rw [assignClass_of_main main]
  | false =>
    rw [assignClass_of_not_main main]
    apply map_modify_unseen
    intro k hk
    have other : k.isMain = false := by simpa [isMain, hk] using main
    have fields : st.table.fields n = k.fields := by rw [ClassTable.fields, hk]; rfl
    have methods : st.table.methods n = k.methods := by rw [ClassTable.methods, hk]; rfl
    have placed := Class.unplaced_of_not_main
      (k := { k with fields := (fieldsOf s st n).1, methods := (methodsOf s st n).1 }) other
    rw [placed, Class.unplaced_of_not_main other]
    simp only [fieldsOf, methodsOf, placeFields_unplaced, placeMethods_unplaced, fields, methods]

theorem unplaced_foldl (s : Strategy) (cs : List ClassId) (st : State) :
    (cs.foldl (assignClass s) st).table.unplaced = st.table.unplaced := by
  induction cs generalizing st with
  | nil => rfl
  | cons c cs ih => exact (ih _).trans (unplaced_assignClass s st c)

theorem unplaced_assign (s : Strategy) (t : ClassTable) : (assign s t).unplaced = t.unplaced :=
  unplaced_foldl s t.ids _

/-- What two runs agree on before class `n`: nothing but offsets and slots of later classes may
differ. -/
structure SameBelow (n : Nat) (st st' : State) : Prop where
  unplaced : st.table.unplaced = st'.table.unplaced
  counters : st.counters = st'.counters
  placed : ∀ c < n, st.table.get? c = st'.table.get? c

section Step
variable {s : Strategy} {st st' : State} {n : Nat}

/-- The main class is the same one in both. -/
theorem SameBelow.step_main (h : SameBelow n st st') (main : st'.table.isMain n = true) :
    SameBelow (n + 1) (assignClass s st n) (assignClass s st' n) := by
  have same := sameOutline_of_unplaced h.unplaced
  rw [assignClass_of_main main, assignClass_of_main ((same.isMain n).trans main)]
  refine ⟨h.unplaced, h.counters, fun c hc => ?_⟩
  rcases Nat.lt_or_eq_of_le (Nat.le_of_lt_succ hc) with below | rfl
  · exact h.placed c below
  · obtain ⟨k, hk, main⟩ := (Option.any_eq_true _ _).mp main
    obtain ⟨l, hl, unplaced⟩ := exists_get?_of_unplaced h.unplaced.symm hk
    have main' : l.isMain = true := by
      rw [← l.isMain_unplaced, unplaced, k.isMain_unplaced]
      exact main
    rw [Class.unplaced_of_main main, Class.unplaced_of_main main'] at unplaced
    rw [hk, hl, unplaced]

/-- Any other class gets the same offsets and slots in both, as its ancestors have theirs. -/
theorem SameBelow.step_class (forest : st'.table.Forest) (h : SameBelow n st st')
    (main : st'.table.isMain n = false) :
    SameBelow (n + 1) (assignClass s st n) (assignClass s st' n) := by
  have same := sameOutline_of_unplaced h.unplaced
  have main' := (same.isMain n).trans main
  have start : st.at (source s st.table n) = st'.at (source s st'.table n) := by
    rw [source_congr same, State.at, h.counters, State.at]
  have above : ∀ x, overridden? st.table (st'.table.parent? n) x =
      overridden? st'.table (st'.table.parent? n) x := by
    intro x
    cases hp : st'.table.parent? n with
    | none => rfl
    | some p =>
      refine overridden?_congr same (fun a ha => ?_) x
      have below : a < n := Nat.lt_of_le_of_lt (forest.le_of_mem_chain ha) (forest hp)
      rw [ClassTable.methods, h.placed a below, ClassTable.methods]
  obtain ⟨fields, methods⟩ := members_of_unplaced h.unplaced main
  have sameFields : fieldsOf s st n = fieldsOf s st' n := by
    rw [fieldsOf, start, ← placeFields_of_unplaced, fields, placeFields_of_unplaced, fieldsOf]
  have sameMethods : methodsOf s st n = methodsOf s st' n := by
    rw [methodsOf, start, same.parent?, placeMethods_congr above, ← placeMethods_of_unplaced, methods,
      placeMethods_of_unplaced, methodsOf]
  refine ⟨?_, ?_, fun c hc => ?_⟩
  · rw [unplaced_assignClass, unplaced_assignClass, h.unplaced]
  · rw [assignClass_of_not_main main, assignClass_of_not_main main']
    simp only [sameFields, sameMethods, keeper_congr same, h.counters]
  · rw [assignClass_of_not_main main, assignClass_of_not_main main', get?_modify, get?_modify,
      sameFields, sameMethods]
    rcases Nat.lt_or_eq_of_le (Nat.le_of_lt_succ hc) with below | rfl
    · rw [h.placed c below]
    · cases hk : st.table.get? c with
      | none =>
        have none' := same.get? c
        rw [hk] at none'
        rw [Option.map_eq_none_iff.mp none'.symm]
      | some k =>
        obtain ⟨l, hl, unplaced⟩ := exists_get?_of_unplaced h.unplaced hk
        have other : l.isMain = false := by simpa [isMain, hl] using main
        rw [hl, Option.map_some, Option.map_some, if_pos rfl, if_pos rfl,
          Class.eq_of_unplaced unplaced other]

end Step

/-- The classes in their order, one run beside the other. -/
theorem sameBelow {t u : ClassTable} (forest : t.Forest) (h : u.unplaced = t.unplaced)
    (s : Strategy) (n : Nat) : SameBelow n (assignBelow s u n) (assignBelow s t n) := by
  have same := sameOutline_of_unplaced h
  induction n with
  | zero =>
    refine ⟨h, ?_, fun c hc => absurd hc (Nat.not_lt_zero c)⟩
    simp only [assignBelow, List.range_zero, List.foldl_nil, same.size]
  | succ n ih =>
    have unplaced : (assignBelow s t n).table.unplaced = t.unplaced := by
      simpa only [assignBelow] using unplaced_foldl s (List.range n) _
    have forest' : (assignBelow s t n).table.Forest := fun hp =>
      forest ((sameOutline_of_unplaced unplaced).parent? _ ▸ hp)
    simp only [assignBelow, List.range_succ, List.foldl_append, List.foldl_cons, List.foldl_nil]
    cases main : (assignBelow s t n).table.isMain n with
    | true => exact ih.step_main main
    | false => exact ih.step_class forest' main

/-- A layout overwrites all that tables may differ in. -/
theorem assign_eq_of_unplaced {t u : ClassTable} (forest : t.Forest) (h : u.unplaced = t.unplaced)
    (s : Strategy) : assign s u = assign s t := by
  have below := (sameBelow forest h s t.size).placed
  have size := (sameOutline_of_unplaced h).size
  have table : assign s u = (assignBelow s u t.size).table := by rw [← size]; rfl
  have same : SameOutline (assign s u) (assign s t) := by
    apply sameOutline_of_unplaced
    rw [unplaced_assign, unplaced_assign, h]
  have size' : (assign s t).size = t.size :=
    (sameOutline_of_unplaced (unplaced_assign s t)).size
  refine eq_of_get? same.byName same.size fun c hc => ?_
  rw [table]
  exact below c (size' ▸ same.size ▸ hc)

end Layout

open ClassTable

/-- After any row of layouts, whether they succeeded or not, a layout is what it would have been
without them: the same offsets and slots are left in the table, and the same sizes and tables of
methods, or the same error, come out. -/
theorem compute_after_layouts {t : ClassTable} (forest : t.Forest) (earlier : List Layout.Strategy)
    (s : Layout.Strategy) :
    Layout.compute s (earlier.foldl (fun u s => (Layout.compute s u).1) t) =
      Layout.compute s t := by
  have unplaced : ∀ u : ClassTable,
      (earlier.foldl (fun u s => (Layout.compute s u).1) u).unplaced = u.unplaced := by
    induction earlier with
    | nil => intro u; rfl
    | cons s' earlier ih => intro u; exact (ih _).trans (Layout.unplaced_assign s' u)
  rw [Layout.compute, Layout.assign_eq_of_unplaced forest (unplaced t), Layout.compute]

/-- A class takes a method over from the main class, which never gets a slot. -/
def Layout.slotless : ClassTable :=
  [{ name := "Main", line := 1, entry := some { param := "a" },
      methods := [{ name := "g", line := 1, owner := 0, returnTy := .int }] },
    { name := "A", line := 2, fields := [{ name := "x", ty := .int, line := 3 }],
      methods := [{ name := "f", line := 4, owner := 1, returnTy := .int }] },
    { name := "B", line := 5, parent := some 1, fields := [{ name := "y", ty := .boolean, line := 6 }],
      methods := [{ name := "f", line := 7, owner := 2, returnTy := .int }],
      inherited := [⟨"g", ⟨0, 0⟩⟩] }].foldl ClassTable.push .empty

theorem compute_after_layouts_slotless :
    Layout.slotless.Forest ∧
      (Layout.compute .sharedRootCounter Layout.slotless).2.isOk = false ∧
      Layout.compute .parentPrefix ([.sharedRootCounter, .parentPrefix, .sharedRootCounter].foldl
        (fun u s => (Layout.compute s u).1) Layout.slotless) =
      Layout.compute .parentPrefix Layout.slotless :=
  have forest : Layout.slotless.Forest := by decide
  ⟨forest, by decide +kernel, compute_after_layouts forest _ _⟩

end MiniJava
