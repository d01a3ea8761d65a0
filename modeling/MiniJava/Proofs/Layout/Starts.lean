import MiniJava.Proofs.Layout.Packed
import MiniJava.Proofs.Layout.Repeated

/-!
# Where the members of a class start

A counter stands where the members of all classes that have drawn from it have ended: its offset is
the sum of the sizes of their fields, its slot the number of their methods that override nothing. So
where a class starts can be told from the declarations alone. With one counter for a tree it is
behind the classes of the tree that are declared before it, and otherwise behind its ancestors.
-/
namespace MiniJava.Layout

open ClassTable

/-- No proper ancestor has a method of this name. -/
def introduced (t : ClassTable) (c : ClassId) (n : Name) : Bool :=
  (t.ancestors c).all fun a => (t.ownMethod? a n).isNone

/-- The methods of a class that override nothing. -/
def introductions (t : ClassTable) (c : ClassId) : List Method :=
  (t.methods c).filter fun m => introduced t c m.name

/-- The classes whose members are placed before those of a class, in order. -/
def earlier (s : Strategy) (t : ClassTable) (c : ClassId) : List ClassId :=
  match s with
  | .sharedRootCounter => (List.range c).filter fun a => t.root a == t.root c
  | .parentPrefix => (t.ancestors c).reverse

/-- Where a counter stands behind the members of some classes. -/
def behind (t : ClassTable) (cs : List ClassId) : Counters :=
  ⟨fieldSizes (cs.flatMap t.fields), Method.slotSize * (cs.flatMap (introductions t)).length⟩

def start (s : Strategy) (t : ClassTable) (c : ClassId) : Counters := behind t (earlier s t c)

theorem introduced_of_top {t : ClassTable} {c : ClassId} (hc : t.parent? c = none) (n : Name) :
    introduced t c n = true := by
  rw [introduced, ancestors_of_top hc]
  rfl

theorem introduced_of_parent {t : ClassTable} (forest : t.Forest) {c p : ClassId}
    (hp : t.parent? c = some p) (n : Name) :
    introduced t c n = (t.findMethod? p n).isNone := by
  rw [introduced, forest.ancestors_of_parent hp, findMethod?]
  induction t.chain p with
  | nil => rfl
  | cons a as ih =>
    rw [List.all_cons, List.findSome?_cons, ih]
    cases t.ownMethod? a n <;> rfl

/-- Which methods a class introduces is read from names only. -/
theorem introduced_congr {t u : ClassTable} (same : SameOutline u t) (c : ClassId) (n : Name) :
    introduced u c n = introduced t c n := by
  simp only [introduced, same.ancestors, same.ownMethod?]

theorem length_introductions_congr {t u : ClassTable} (same : SameOutline u t)
    (cs : List ClassId) :
    (cs.flatMap (introductions u)).length = (cs.flatMap (introductions t)).length := by
  induction cs with
  | nil => rfl
  | cons c cs ih =>
    have own : (introductions u c).length = (introductions t c).length := by
      have names := congrArg (List.countP (introduced t c)) (same.methodNames c)
      simp only [List.countP_map] at names
      simp only [introductions, introduced_congr same, ← List.countP_eq_length_filter]
      exact names
    rw [List.flatMap_cons, List.flatMap_cons, List.length_append, List.length_append, ih, own]

theorem behind_congr {t u : ClassTable} (same : SameOutline u t) (cs : List ClassId) :
    behind u cs = behind t cs := by
  have fields : fieldSizes (cs.flatMap u.fields) = fieldSizes (cs.flatMap t.fields) := by
    apply fieldSizes_congr
    simp only [List.map_flatMap, same.fields]
  rw [behind, behind, fields, length_introductions_congr same]

theorem start_congr {t u : ClassTable} (same : SameOutline u t) (s : Strategy) (c : ClassId) :
    start s u c = start s t c := by
  have classes : earlier s u c = earlier s t c := by
    cases s with
    | sharedRootCounter => simp only [earlier, same.root]
    | parentPrefix => rw [earlier, earlier, same.ancestors]
  rw [start, start, classes, behind_congr same]

/-- The methods of a class that override nothing move its slot counter on. -/
theorem placeMethods_stop (t : ClassTable) (parent : Option ClassId) (ms : List Method) :
    ∀ slot, (placeMethods t parent slot ms).2 =
      slot + Method.slotSize * (ms.filter fun m => (overridden? t parent m.name).isNone).length := by
  induction ms with
  | nil => intro slot; rfl
  | cons m ms ih =>
    intro slot
    rw [placeMethods, List.filter_cons]
    cases h : overridden? t parent m.name with
    | some o => exact ih slot
    | none =>
      refine (ih (slot + Method.slotSize)).trans ?_
      simp only [Option.isNone_none, if_true, List.length_cons, Nat.mul_add, Nat.mul_one]
      omega

/-- Once the parent has its slots, exactly the methods of names that no ancestor declares override
nothing. -/
theorem overridden?_isNone {t : ClassTable} (forest : t.Forest) {c : ClassId}
    (above : ∀ p, t.parent? c = some p → ∃ bound, Slotted t p bound) (n : Name) :
    (overridden? t (t.parent? c) n).isNone = introduced t c n := by
  cases hp : t.parent? c with
  | none => rw [introduced_of_top hp]; rfl
  | some p =>
    rw [introduced_of_parent forest hp]
    obtain ⟨bound, slotted⟩ := above p hp
    cases hr : t.findMethod? p n with
    | none =>
      have nothing : overridden? t (some p) n = none := by simp [overridden?, hr]
      rw [nothing]
      rfl
    | some r =>
      obtain ⟨k, hk, _⟩ := exists_method_of_find hr
      obtain ⟨slot, hslot, _⟩ := slotted.apart.placed k (mem_visibleMethods_of_find hr hk)
      have there : overridden? t (some p) n = some slot := by simp [overridden?, hr, hk, hslot]
      rw [there]
      rfl

/-- The classes below `n` that have drawn from the counter kept under `k`. -/
def drawn (s : Strategy) (t : ClassTable) (n : Nat) (k : ClassId) : List ClassId :=
  match s with
  | .sharedRootCounter => (List.range n).filter fun a => t.root a == k
  | .parentPrefix => if k < n then (t.chain k).reverse else []

theorem drawn_source {t : ClassTable} (forest : t.Forest) (s : Strategy) (n : ClassId) :
    drawn s t n (source s t n) = earlier s t n := by
  cases s with
  | sharedRootCounter => rfl
  | parentPrefix =>
    cases hp : t.parent? n with
    | none => simp [drawn, source, hp, earlier, ancestors_of_top hp]
    | some p => simp [drawn, source, hp, earlier, forest.ancestors_of_parent hp, forest hp]

theorem drawn_keeper {t : ClassTable} (s : Strategy) (n : ClassId) :
    drawn s t (n + 1) (keeper s t n) = earlier s t n ++ [n] := by
  cases s with
  | sharedRootCounter =>
    simp only [drawn, keeper, earlier, List.range_succ, List.filter_append]
    simp
  | parentPrefix => simp [drawn, keeper, earlier, chain]

theorem drawn_of_ne_keeper {t : ClassTable} {s : Strategy} {n k : ClassId}
    (h : k ≠ keeper s t n) : drawn s t (n + 1) k = drawn s t n k := by
  cases s with
  | sharedRootCounter =>
    have other : (t.root n == k) = false := beq_false_of_ne fun heq => h heq.symm
    simp [drawn, List.range_succ, other]
  | parentPrefix =>
    have other : k < n + 1 ↔ k < n :=
      ⟨fun hk => Nat.lt_of_le_of_ne (Nat.le_of_lt_succ hk) h, fun hk => Nat.lt_succ_of_lt hk⟩
    simp only [drawn, other]

/-- A class without members moves no counter on. -/
theorem behind_append_bare {t : ClassTable} {c : ClassId} (fields : t.fields c = [])
    (methods : t.methods c = []) (cs : List ClassId) : behind t (cs ++ [c]) = behind t cs := by
  have none' : introductions t c = [] := by rw [introductions, methods]; rfl
  simp only [behind, List.flatMap_append, List.flatMap_singleton, fields, none', List.append_nil]

/-- A class with the members it gets: all others have got theirs. -/
def placed (s : Strategy) (t u : ClassTable) (c : ClassId) (k : Class) : Class :=
  if k.isMain then k
  else { k with
    fields := (placeFields (start s t c).field k.fields).1
    methods := (placeMethods u k.parent (start s t c).slot k.methods).1 }

theorem placed_of_main {s : Strategy} {t u : ClassTable} {c : ClassId} {k : Class}
    (main : k.isMain = true) : placed s t u c k = k := by rw [placed, if_pos main]

theorem placed_of_not_main {s : Strategy} {t u : ClassTable} {c : ClassId} {k : Class}
    (main : k.isMain = false) :
    placed s t u c k = { k with
      fields := (placeFields (start s t c).field k.fields).1
      methods := (placeMethods u k.parent (start s t c).slot k.methods).1 } := by
  rw [placed, main]
  rfl

/-- The slots that a class takes over are read from the classes below it. -/
theorem placed_congr {s : Strategy} {t u v : ClassTable} (forest : v.Forest)
    (same : SameOutline u v) {c : ClassId} (below : ∀ a < c, u.methods a = v.methods a)
    {k : Class} (parent : v.parent? c = k.parent) : placed s t u c k = placed s t v c k := by
  have slots : ∀ n, overridden? u k.parent n = overridden? v k.parent n := by
    intro n
    cases hp : k.parent with
    | none => rfl
    | some p =>
      refine overridden?_congr same (fun a ha => below a ?_) n
      exact Nat.lt_of_le_of_lt (forest.le_of_mem_chain ha) (forest (parent.trans hp))
  rw [placed, placed, placeMethods_congr slots]

/-- What holds after the classes below `n`: the counters stand behind what has drawn from them, and
these classes have their members. -/
structure Told (s : Strategy) (t : ClassTable) (n : Nat) (st : State) : Prop where
  counters : ∀ k, st.at k = behind t (drawn s t n k)
  done : ∀ c < n, st.table.get? c = (t.get? c).map (placed s t st.table c)
  untouched : ∀ c, n ≤ c → st.table.get? c = t.get? c

section Step
variable {s : Strategy} {t : ClassTable} {st : State} {n : Nat}

/-- The main class has no members. -/
theorem Told.step_main (wf : t.WellFormed) (same : SameOutline st.table t)
    (main : t.isMain n = true) (h : Told s t n st) : Told s t (n + 1) (assignClass s st n) := by
  obtain rfl : n = 0 := wf.isMain_iff.mp main
  rw [assignClass_of_main ((same.isMain 0).trans main)]
  have fresh : ∀ k, drawn s t 0 k = [] := by intro k; cases s <;> rfl
  have first : earlier s t 0 = [] := by rw [← drawn_source wf.forest, fresh]
  refine ⟨fun k => ?_, fun c hc => ?_, fun c hc => h.untouched c (Nat.zero_le c)⟩
  · rw [h.counters]
    by_cases hk : k = keeper s t 0
    · rw [hk, drawn_keeper, first, fresh, behind_append_bare wf.main_fields wf.main_methods]
    · rw [drawn_of_ne_keeper hk]
  · obtain rfl : c = 0 := Nat.lt_one_iff.mp hc
    rw [h.untouched 0 (Nat.le_refl 0)]
    cases hk : t.get? 0 with
    | none => rfl
    | some k =>
      have main : k.isMain = true := by simpa [isMain, hk] using main
      rw [Option.map_some, placed_of_main main]

/-- Where the class starts, and where the counters go on. -/
theorem Told.counters_next (wf : t.WellFormed) (known : Assigned s t n st)
    (h : Told s t n st) :
    st.at (source s st.table n) = start s t n ∧
      (⟨(fieldsOf s st n).2, (methodsOf s st n).2⟩ : Counters) =
        behind t (earlier s t n ++ [n]) := by
  have same := known.same.outline
  have forest : st.table.Forest := (wf.of_sameOutline same.symm).forest
  have begins : st.at (source s st.table n) = start s t n := by
    rw [source_congr same, h.counters, drawn_source wf.forest, start]
  have fields : st.table.fields n = t.fields n := by
    rw [ClassTable.fields, h.untouched n (Nat.le_refl n), ClassTable.fields]
  have methods : st.table.methods n = t.methods n := by
    rw [ClassTable.methods, h.untouched n (Nat.le_refl n), ClassTable.methods]
  have new : ∀ x, (overridden? st.table (st.table.parent? n) x).isNone = introduced t n x := by
    intro x
    rw [overridden?_isNone forest, introduced_congr same]
    intro p hp
    have parent := (same.parent? n).symm.trans hp
    exact ⟨_, known.slotted p (wf.forest parent) (wf.parent_not_main parent)⟩
  refine ⟨begins, ?_⟩
  simp only [fieldsOf, methodsOf, begins, fields, methods, placeFields_stop, placeMethods_stop, new]
  simp only [start, behind, List.flatMap_append, List.flatMap_singleton, fieldSizes_append,
    List.length_append, Nat.mul_add, introductions]

/-- Any other class gets its members behind all that has drawn from the counter. -/
theorem Told.step_class (wf : t.WellFormed) (known : Assigned s t n st) (hn : n < t.size)
    (main : t.isMain n = false) (h : Told s t n st) :
    Told s t (n + 1) (assignClass s st n) := by
  have same := known.same.outline
  have same' := (sameDeclarations_assignClass s st n).outline
  have forest : st.table.Forest := (wf.of_sameOutline same.symm).forest
  have main' := (same.isMain n).trans main
  have next := known.at_next wf hn main
  obtain ⟨begins, stop⟩ := h.counters_next wf known
  have below : ∀ a < n, (assignClass s st n).table.methods a = st.table.methods a := by
    intro a ha
    rw [methods_assignClass main' (same.size ▸ hn), if_neg (Nat.ne_of_lt ha)]
  refine ⟨fun k => ?_, fun c hc => ?_, fun c hc => ?_⟩
  · rw [next]
    split
    · rename_i hk
      rw [hk, drawn_keeper, stop]
    · rename_i hk
      rw [h.counters, drawn_of_ne_keeper hk]
  · obtain ⟨k, hk⟩ := get?_of_lt_size (Nat.lt_of_lt_of_le hc hn)
    have parent : st.table.parent? c = k.parent := by rw [same.parent?, parent?, hk]; rfl
    have here : placed s t (assignClass s st n).table c k = placed s t st.table c k :=
      placed_congr forest same'
        (fun a ha => below a (Nat.lt_of_lt_of_le ha (Nat.le_of_lt_succ hc))) parent
    rw [hk, Option.map_some, here, assignClass_of_not_main main', get?_modify]
    rcases Nat.lt_or_eq_of_le (Nat.le_of_lt_succ hc) with hlt | rfl
    · rw [h.done c hlt, hk, Option.map_some, Option.map_some, if_neg (Nat.ne_of_gt hlt)]
    · have main : k.isMain = false := by simpa [isMain, hk] using main
      have found : st.table.get? c = some k := (h.untouched c (Nat.le_refl c)).trans hk
      rw [found, Option.map_some, if_pos rfl, placed_of_not_main main, fieldsOf, methodsOf, begins,
        parent, ClassTable.fields, ClassTable.methods, found]
      rfl
  · rw [assignClass_of_not_main main', get?_modify, h.untouched c (Nat.le_of_succ_le hc)]
    simp only [if_neg (Nat.ne_of_lt hc), Option.map_id']

theorem Told.step (wf : t.WellFormed) (known : Assigned s t n st) (hn : n < t.size)
    (h : Told s t n st) : Told s t (n + 1) (assignClass s st n) := by
  cases main : t.isMain n with
  | true => exact h.step_main wf known.same.outline main
  | false => exact h.step_class wf known hn main

end Step

theorem told {t : ClassTable} (wf : t.WellFormed) (s : Strategy) (n : Nat) :
    n ≤ t.size → Told s t n (assignBelow s t n) := by
  induction n with
  | zero =>
    intro _
    refine ⟨fun k => ?_, fun c hc => absurd hc (Nat.not_lt_zero c), fun _ _ => rfl⟩
    have fresh : drawn s t 0 k = [] := by cases s <;> rfl
    simp only [State.at, assignBelow, List.range_zero, List.foldl_nil, Array.getElem?_replicate,
      fresh]
    split <;> rfl
  | succ n ih =>
    intro hn
    rw [assignBelow, List.range_succ, List.foldl_append]
    exact (ih (Nat.le_of_succ_le hn)).step wf (assigned_below wf s n (Nat.le_of_succ_le hn)) hn

/-- Every class has its fields one after the other from where it starts, and its new methods in the
slots from there; nothing else of it is changed. -/
theorem get?_assign {t : ClassTable} (wf : t.WellFormed) (s : Strategy) (c : ClassId) :
    (assign s t).get? c = (t.get? c).map (placed s t (assign s t) c) := by
  have all := told wf s t.size (Nat.le_refl _)
  by_cases hc : c < t.size
  · exact all.done c hc
  · have nothing : t.get? c = none := Array.getElem?_eq_none (Nat.le_of_not_lt hc)
    have same := all.untouched c (Nat.le_of_not_lt hc)
    rw [nothing] at same ⊢
    exact same

/-- Two ways to lay out a table are the same one if every class starts in the same place. -/
theorem assign_congr {t : ClassTable} (wf : t.WellFormed) {s s' : Strategy}
    (starts : ∀ c, t.isMain c = false → start s t c = start s' t c) : assign s t = assign s' t := by
  have same := (sameDeclarations_assign wf s).outline
  have same' := (sameDeclarations_assign wf s').outline
  have forest : (assign s' t).Forest := (wf.of_sameOutline same'.symm).forest
  have classes : ∀ c, (assign s t).get? c = (assign s' t).get? c := by
    intro c
    induction c using Nat.strongRecOn with
    | ind c ih =>
      rw [get?_assign wf s, get?_assign wf s']
      cases hk : t.get? c with
      | none => rfl
      | some k =>
        refine congrArg some ?_
        have parent : (assign s' t).parent? c = k.parent := by rw [same'.parent?, parent?, hk]; rfl
        rw [placed_congr forest (same.trans same'.symm)
          (fun a ha => by rw [ClassTable.methods, ih a ha, ClassTable.methods]) parent]
        cases main : k.isMain with
        | true => rw [placed_of_main main, placed_of_main main]
        | false =>
          rw [placed_of_not_main main, placed_of_not_main main,
            starts c (by simpa [isMain, hk] using main)]
  exact eq_of_get? (same.trans same'.symm).byName (same.trans same'.symm).size fun c _ => classes c

end MiniJava.Layout
