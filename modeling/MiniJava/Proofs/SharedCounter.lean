import MiniJava.Compile
import MiniJava.Proofs.Compact
import MiniJava.Proofs.Declared.Overrides
import MiniJava.Proofs.Layout.Starts
import MiniJava.Proofs.Limits.Compile

/-!
# One counter for a tree

Where all classes of a tree draw from one counter, fields and new methods are numbered through the
tree in the order of declaration. In a tree that is a single chain, every class declared before
another is an ancestor of it, and this is the numbering behind the parents. So for programs of single
chains both ways to lay out the classes lead to the same module.
-/
namespace MiniJava

namespace Layout

open ClassTable

/-- A method that overrides nothing takes the next slot. -/
theorem placeMethods_getElem? (t : ClassTable) (parent : Option ClassId) (ms : List Method) :
    ∀ (slot i : Nat), (placeMethods t parent slot ms).1[i]? =
      (ms[i]?).map fun m : Method => { m with
        slotOffset := some ((overridden? t parent m.name).getD (slot + Method.slotSize *
          ((ms.take i).filter fun k => (overridden? t parent k.name).isNone).length)) } := by
  induction ms with
  | nil => exact fun slot i => rfl
  | cons m ms ih =>
    intro slot i
    rw [placeMethods]
    cases h : overridden? t parent m.name with
    | some o =>
      cases i with
      | zero => simp [h]
      | succ i => simpa [h] using ih slot i
    | none =>
      cases i with
      | zero => simp [h]
      | succ i =>
        have next : slot + Method.slotSize + Method.slotSize *
            ((ms.take i).filter fun k => (overridden? t parent k.name).isNone).length =
            slot + Method.slotSize *
              (((ms.take i).filter fun k => (overridden? t parent k.name).isNone).length + 1) := by
          rw [Nat.mul_add, Nat.mul_one]
          omega
        simpa [h, next] using ih (slot + Method.slotSize) i

/-- What the offsets and slots of a class are. A field stands behind the fields of the classes that
are placed earlier and those before it in its class. A method that overrides nothing has as its slot
the number of such methods before it, and any other method the slot of the one it overrides. -/
structure Numbered (s : Strategy) (t : ClassTable) (d : ClassId) : Prop where
  offsets : ∀ i f, (t.fields d)[i]? = some f →
    f.offset = some (fieldSizes ((earlier s t d).flatMap t.fields) +
      fieldSizes ((t.fields d).take i))
  introductions : ∀ i m, (t.methods d)[i]? = some m → introduced t d m.name = true →
    m.slot? = some (((earlier s t d).flatMap (introductions t)).length +
      (((t.methods d).take i).filter fun k => introduced t d k.name).length)
  overrides : ∀ m ∈ t.methods d, introduced t d m.name = false →
    ∃ p r k n, t.parent? d = some p ∧ t.findMethod? p m.name = some r ∧ t.method? r = some k ∧
      k.slot? = some n ∧ m.slot? = some n

section Assign
variable {t : ClassTable} (wf : t.WellFormed) (s : Strategy) {d : ClassId}
  (main : t.isMain d = false)
include wf main

theorem get?_assign_of_not_main :
    (assign s t).get? d = (t.get? d).map fun k => { k with
      fields := (placeFields (start s t d).field k.fields).1
      methods := (placeMethods (assign s t) k.parent (start s t d).slot k.methods).1 } := by
  rw [get?_assign wf]
  cases hk : t.get? d with
  | none => rfl
  | some k =>
    have other : k.isMain = false := by simpa [isMain, hk] using main
    rw [Option.map_some, placed_of_not_main other, Option.map_some]

theorem fields_assign :
    (assign s t).fields d = (placeFields (start s t d).field (t.fields d)).1 := by
  rw [ClassTable.fields, get?_assign_of_not_main wf s main, ClassTable.fields]
  cases t.get? d <;> rfl

theorem methods_assign :
    (assign s t).methods d =
      (placeMethods (assign s t) (t.parent? d) (start s t d).slot (t.methods d)).1 := by
  rw [ClassTable.methods, get?_assign_of_not_main wf s main, ClassTable.methods, parent?]
  cases t.get? d <;> rfl

theorem offset_of_field {i : Nat} {f : Field} (hf : ((assign s t).fields d)[i]? = some f) :
    f.offset = some (fieldSizes ((earlier s (assign s t) d).flatMap (assign s t).fields) +
      fieldSizes (((assign s t).fields d).take i)) := by
  have same := (sameDeclarations_assign wf s).outline
  have before : fieldSizes (((assign s t).fields d).take i) = fieldSizes ((t.fields d).take i) :=
    fieldSizes_congr (by rw [List.map_take, List.map_take, same.fields])
  rw [fields_assign wf s main, placeFields_getElem?] at hf
  obtain ⟨g, _, rfl⟩ := Option.map_eq_some_iff.mp hf
  rw [before, ← start_congr same s d]
  rfl

omit main in
/-- The classes above have their slots. -/
theorem exists_slotted_above (hd : d < t.size) {p : ClassId}
    (hp : (assign s t).parent? d = some p) : ∃ bound, Slotted (assign s t) p bound := by
  have parent := ((sameDeclarations_assign wf s).outline.parent? d).symm.trans hp
  exact exists_slotted_assign wf s (Nat.lt_trans (wf.forest parent) hd) (wf.parent_not_main parent)

theorem slot_of_introduced (hd : d < t.size) {i : Nat} {m : Method}
    (hm : ((assign s t).methods d)[i]? = some m) (new : introduced (assign s t) d m.name = true) :
    m.slot? = some (((earlier s (assign s t) d).flatMap (introductions (assign s t))).length +
      ((((assign s t).methods d).take i).filter fun k =>
        introduced (assign s t) d k.name).length) := by
  have same := (sameDeclarations_assign wf s).outline
  have overrides := overridden?_isNone (wf.of_sameOutline same.symm).forest
    fun _ hp => exists_slotted_above wf s hd hp
  have before : (((assign s t).methods d).take i).countP
        (fun k => introduced (assign s t) d k.name) =
      ((t.methods d).take i).countP fun k => introduced (assign s t) d k.name := by
    have names := congrArg (fun ns => List.countP (introduced (assign s t) d) (ns.take i))
      (same.methodNames d)
    simp only [← List.map_take, List.countP_map] at names
    exact names
  rw [methods_assign wf s main, placeMethods_getElem?, ← same.parent?] at hm
  obtain ⟨k, _, rfl⟩ := Option.map_eq_some_iff.mp hm
  have nothing : overridden? (assign s t) ((assign s t).parent? d) k.name = none :=
    Option.isNone_iff_eq_none.mp ((overrides k.name).trans new)
  simp only [nothing, Option.getD_none, Method.slot?, Option.map_some, overrides,
    ← start_congr same s d]
  simp only [start, behind, ← Nat.mul_add, ← List.countP_eq_length_filter, before]
  rw [Nat.mul_div_cancel_left _ (by decide)]

theorem slot_of_override (hd : d < t.size) {m : Method} (hm : m ∈ (assign s t).methods d)
    (known : introduced (assign s t) d m.name = false) :
    ∃ p r k n, (assign s t).parent? d = some p ∧ (assign s t).findMethod? p m.name = some r ∧
      (assign s t).method? r = some k ∧ k.slot? = some n ∧ m.slot? = some n := by
  have wf' : (assign s t).WellFormed :=
    wf.of_sameOutline (sameDeclarations_assign wf s).outline.symm
  obtain ⟨bound, slotted⟩ := exists_slotted_assign wf s hd main
  cases hp : (assign s t).parent? d with
  | none =>
    rw [introduced_of_top hp] at known
    cases known
  | some p =>
    rw [introduced_of_parent wf'.forest hp, Option.isNone_eq_false_iff,
      Option.isSome_iff_exists] at known
    obtain ⟨r, hr⟩ := known
    obtain ⟨k, hk, _⟩ := exists_method_of_find hr
    obtain ⟨bound', above⟩ := exists_slotted_above wf s hd hp
    obtain ⟨o, ho, _⟩ := above.apart.placed k (mem_visibleMethods_of_find hr hk)
    have found : overridden? (assign s t) ((assign s t).parent? d) m.name = some o := by
      simp [overridden?, hp, hr, hk, ho]
    have taken := slotted.overriding d (mem_chain_self _ d) m hm o found
    exact ⟨p, r, k, _, rfl, hr, hk, slot?_eq_some ho, slot?_eq_some taken⟩

theorem numbered_assign (hd : d < t.size) : Numbered s (assign s t) d where
  offsets _ _ hf := offset_of_field wf s main hf
  introductions _ _ hm new := slot_of_introduced wf s main hd hm new
  overrides _ hm known := slot_of_override wf s main hd hm known

end Assign

end Layout

namespace ClassTable

variable {t : ClassTable}

theorem Forest.descends_root (forest : t.Forest) (c : ClassId) : t.Descends c (t.root c) := by
  induction c using forest.induction with
  | top c hc =>
    rw [root_of_top hc]
    exact .self c
  | child c p hp ih =>
    rw [forest.root_of_parent hp]
    exact .up hp ih

/-- The last step of a way up. -/
theorem Descends.eq_or_child {c a : ClassId} (h : t.Descends c a) :
    c = a ∨ ∃ b, t.Descends c b ∧ t.parent? b = some a := by
  induction h with
  | self c => exact Or.inl rfl
  | @up c p a hp _ ih =>
    rcases ih with rfl | ⟨b, hpb, hb⟩
    · exact Or.inr ⟨c, .self c, hp⟩
    · exact Or.inr ⟨b, .up hp hpb, hb⟩

/-- The first step of a way up. -/
theorem Descends.eq_or_parent {c p a : ClassId} (h : t.Descends c a) (hp : t.parent? c = some p) :
    c = a ∨ t.Descends p a := by
  cases h with
  | self _ => exact Or.inl rfl
  | up hq above => exact Or.inr (Option.some.inj (hq.symm.trans hp) ▸ above)

/-- No class has two children. -/
def Unbranched (t : ClassTable) : Prop :=
  ∀ c d p, t.parent? c = some p → t.parent? d = some p → c = d

/-- Of two classes of one chain, one is above the other. -/
theorem Unbranched.descends_or (unbranched : t.Unbranched) (forest : t.Forest) (c : ClassId) :
    ∀ {a}, t.root a = t.root c → t.Descends c a ∨ t.Descends a c := by
  induction c using forest.induction with
  | top c hc =>
    intro a same
    rw [root_of_top hc] at same
    exact Or.inr (same ▸ forest.descends_root a)
  | child c p hp ih =>
    intro a same
    rcases ih (same.trans (forest.root_of_parent hp)) with above | below
    · exact Or.inl (.up hp above)
    · rcases below.eq_or_child with rfl | ⟨b, hab, hb⟩
      · exact Or.inl (.up hp (.self a))
      · exact Or.inr (unbranched b c p hb hp ▸ hab)

/-- What is declared before a class in its tree are its ancestors. -/
theorem Unbranched.earlier_eq (unbranched : t.Unbranched) (forest : t.Forest) (c : ClassId) :
    Layout.earlier .sharedRootCounter t c = Layout.earlier .parentPrefix t c := by
  induction c using forest.induction with
  | top c hc =>
    rw [Layout.earlier, Layout.earlier, ancestors_of_top hc, root_of_top hc]
    refine List.filter_eq_nil_iff.mpr fun a ha => ?_
    have below : t.root a < c :=
      Nat.lt_of_le_of_lt (forest.root_le a) (List.mem_range.mp ha)
    simpa using Nat.ne_of_lt below
  | child c p hp ih =>
    -- between its parent and the class itself nothing of the tree is declared
    have between : ∀ a, p < a → a < c → (t.root a == t.root c) = false := by
      intro a hpa hac
      refine beq_false_of_ne fun same => ?_
      rcases unbranched.descends_or forest c same with above | below
      · rcases above.eq_or_parent hp with rfl | above
        · exact Nat.lt_irrefl _ hac
        · exact Nat.not_lt_of_le (forest.descends_le above) hpa
      · exact Nat.not_lt_of_le (forest.descends_le below) hac
    obtain ⟨n, rfl⟩ := Nat.exists_eq_add_of_le (show p + 1 ≤ c from forest hp)
    have none' : ((List.range n).map (p + 1 + ·)).filter (fun a => t.root a == t.root (p + 1 + n)) =
        [] := by
      refine List.filter_eq_nil_iff.mpr fun a ha => ?_
      obtain ⟨j, hj, rfl⟩ := List.mem_map.mp ha
      have behind : p < p + 1 + j := Nat.lt_of_lt_of_le (Nat.lt_succ_self p) (Nat.le_add_right _ j)
      have before : p + 1 + j < p + 1 + n := Nat.add_lt_add_left (List.mem_range.mp hj) _
      rw [between _ behind before]
      exact Bool.false_ne_true
    have root := forest.root_of_parent hp
    rw [Layout.earlier] at ih ⊢
    rw [List.range_add, List.filter_append, none', List.append_nil, List.range_succ,
      List.filter_append, root, ih]
    simp [Layout.earlier, forest.ancestors_of_parent hp, chain]

end ClassTable

namespace Layout

open ClassTable

/-- In a table of single chains both ways to lay out the classes are one. -/
theorem compute_of_unbranched {t : ClassTable} (wf : t.WellFormed) (unbranched : t.Unbranched) :
    compute .sharedRootCounter t = compute .parentPrefix t := by
  have same : assign .sharedRootCounter t = assign .parentPrefix t := by
    refine assign_congr wf fun c _ => ?_
    rw [start, start, unbranched.earlier_eq wf.forest]
  rw [compute, same, compute]

/-- Behind their parents all classes get room for their fields and two headers. -/
theorem allocSize_of_compute {t u : ClassTable} {layout : Layout} (wf : t.WellFormed)
    (computed : compute .parentPrefix t = (u, .ok layout)) {d : ClassId} {l : ClassLayout}
    (hl : layout[d]? = some l) : l.allocSize = l.objectSize + headerSize := by
  obtain ⟨hd, hof⟩ := ofClass_of_compute computed hl
  obtain ⟨rfl, _⟩ := Prod.mk.inj computed
  have same := (sameDeclarations_assign wf .parentPrefix).outline
  have wf' : (assign .parentPrefix t).WellFormed := wf.of_sameOutline same.symm
  have forest : (assign .parentPrefix t).Forest := wf'.forest
  have rows : Rows (assign .parentPrefix t) d := by
    intro a ha i f hf
    have member : a < t.size :=
      same.size ▸ Nat.lt_of_le_of_lt (forest.le_of_mem_chain ha) hd
    cases main : t.isMain a with
    | true =>
      obtain rfl := wf.isMain_iff.mp main
      rw [wf'.main_fields] at hf
      cases hf
    | false =>
      obtain ⟨k, pack, _⟩ := exists_packed_assign wf member main
      exact pack.offsets i f hf
  exact rows.allocSize forest hof

end Layout

/-- No class is the superclass of two classes. -/
def Program.SingleChains (p : Program .bare) : Prop := (p.classes.filterMap (·.superclass)).Nodup

open Check ClassTable

theorem Program.SingleChains.index_eq {p : Program .bare} (single : p.SingleChains) {i j : Nat}
    {d e : ClassDecl .bare} (hd : p.classes[i]? = some d) (he : p.classes[j]? = some e) {n : Name}
    (hn : d.superclass = some n) (hn' : e.superclass = some n) : i = j := by
  obtain ⟨hi, rfl⟩ := List.getElem?_eq_some_iff.mp hd
  obtain ⟨hj, rfl⟩ := List.getElem?_eq_some_iff.mp he
  have apart := List.pairwise_iff_getElem.mp (List.pairwise_filterMap.mp single)
  rcases Nat.lt_trichotomy i j with hlt | rfl | hlt
  · exact absurd rfl (apart i j hi hj hlt n hn n hn')
  · rfl
  · exact absurd rfl (apart j i hj hi hlt n hn' n hn)

/-- The classes of such a program stand in single chains. -/
theorem unbranched_of_accepted {o : CheckOptions} {p : Program .bare} {c : Checked}
    (accepted : (check o p).result = .ok c) (single : p.SingleChains) : c.table.Unbranched := by
  by_cases zero : o.maxErrors = some 0
  · -- the main class is the only one
    obtain ⟨_, strict⟩ := o
    subst zero
    rw [check_of_zero] at accepted
    obtain rfl := Except.ok.inj accepted
    intro a _ q ha _
    obtain ⟨k, hk, _⟩ := get?_of_parent? ha
    obtain rfl : a = 0 := Nat.lt_one_iff.mp (unreported_size strict p ▸ lt_size_of_get? hk)
    rw [(unreported_wellFormed strict p).main_top] at ha
    cases ha
  · obtain ⟨t, mirrors, same, rules⟩ := exists_mirrors zero accepted
    have named : ∀ {c q}, t.parent? c = some q → ∃ i d j e, c = i + 1 ∧ q = j + 1 ∧
        p.classes[i]? = some d ∧ p.classes[j]? = some e ∧ d.superclass = some e.name := by
      intro c q hq
      obtain ⟨k, hk, _⟩ := get?_of_parent? hq
      rcases mirrors.get?_cases hk with ⟨rfl, _, _⟩ | ⟨before, d, _, hd, rfl, _⟩
      · rw [parent?, mirrors.main] at hq
        cases hq
      · obtain ⟨j, e, rfl, he, superclass⟩ := (mirrors.parent?_iff rules.names hd).mp hq
        exact ⟨_, d, j, e, rfl, rfl, hd, he, superclass⟩
    intro a b q ha hb
    rw [same.outline.parent?] at ha hb
    obtain ⟨i, d, j, e, rfl, rfl, hd, he, hs⟩ := named ha
    obtain ⟨i', d', j', e', rfl, hj, hd', he', hs'⟩ := named hb
    obtain rfl := Nat.succ.inj hj
    obtain rfl := Option.some.inj (he.symm.trans he')
    rw [single.index_eq hd hd' hs hs']

/-- Two ways to lay out the classes that come to the same are not told apart in the module. -/
theorem compile_layout_congr {o : Options} {s s' : Layout.Strategy} {p : Program .bare}
    (same : ∀ c, (check o.checking p).result = .ok c →
      Layout.compute s c.table = Layout.compute s' c.table) (sink : Sink) (d : Diagnostics) :
    compile { o with layout := s } p sink d = compile { o with layout := s' } p sink d := by
  have checked : runCheck { o with layout := s } p d = runCheck { o with layout := s' } p d := rfl
  have analyzed : analyze { o with layout := s } p d = analyze { o with layout := s' } p d := by
    rw [analyze, analyze, checked]
    cases accepted : (runCheck { o with layout := s' } p d).result with
    | error e => rfl
    | ok c =>
      dsimp only
      rw [same c (accepted_of_runCheck accepted).2]
  simp only [compile, analyzed, checked]

/-- Where every tree has one counter, offsets and slots number the fields and the new methods of the
tree in the order of declaration. If no class is the superclass of two classes, the program is
compiled to what it is compiled to with every class behind its parent, and every class gets room for
its fields and two headers. -/
theorem shared_counter_closed_form {o : Options} {p : Program .bare} {c : Checked}
    (accepted : (check o.checking p).result = .ok c) :
    ∃ t layout, Layout.compute .sharedRootCounter c.table = (t, .ok layout) ∧
      SameDeclarations t c.table ∧ layout.length = t.size ∧
      (∀ d < t.size, t.isMain d = false → Layout.Numbered .sharedRootCounter t d) ∧
      (p.SingleChains →
        (∀ sink d, compile { o with layout := .sharedRootCounter } p sink d =
          compile { o with layout := .parentPrefix } p sink d) ∧
        ∀ l ∈ layout, l.allocSize = l.objectSize + 8) := by
  obtain ⟨wf, listed, agree⟩ := table_of_accepted accepted
  obtain ⟨layout, computed, complete⟩ := Layout.compute_eq_ok wf listed agree .sharedRootCounter
  have same := Layout.sameDeclarations_assign wf .sharedRootCounter
  refine ⟨_, layout, computed, same, complete.length, ?_, ?_⟩
  · intro d hd main
    exact Layout.numbered_assign wf _ ((same.outline.isMain d).symm.trans main)
      (same.outline.size ▸ hd)
  · intro single
    have one : ∀ c, (check o.checking p).result = .ok c →
        Layout.compute .sharedRootCounter c.table = Layout.compute .parentPrefix c.table :=
      fun c accepted => Layout.compute_of_unbranched (table_of_accepted accepted).1
        (unbranched_of_accepted accepted single)
    refine ⟨compile_layout_congr one, fun l hl => ?_⟩
    obtain ⟨i, hi⟩ := List.getElem?_of_mem hl
    exact Layout.allocSize_of_compute wf ((one c accepted).symm.trans computed) hi

/-- Two chains, declared in turns: `B` below `A`, and `Y` below `X`. -/
def chains : Program .bare where
  main := ⟨1, "Main", "args", [], []⟩
  classes := [
    ⟨1, (), "A", none, [⟨1, .int, "v"⟩], [returning "f" [] (.name "v")]⟩,
    ⟨1, (), "X", none, [⟨1, .boolean, "w"⟩], [returning "g" [] (.int 1)]⟩,
    ⟨1, (), "B", some "A", [⟨1, .intArray, "u"⟩],
      [returning "h" [] (.int 2), returning "f" [] (.int 3)]⟩,
    ⟨1, (), "Y", some "X", [⟨1, .int, "z"⟩], [returning "h" [] (.name "z")]⟩]

theorem shared_counter_closed_form_chains :
    chains.SingleChains ∧ ∃ c, (check (Options.checking {}) chains).result = .ok c ∧
      ∃ t layout, Layout.compute .sharedRootCounter c.table = (t, .ok layout) ∧
        (∀ d < t.size, t.isMain d = false → Layout.Numbered .sharedRootCounter t d) ∧
        (∀ sink d, compile { layout := .sharedRootCounter } chains sink d =
          compile { layout := .parentPrefix } chains sink d) ∧
        ∀ l ∈ layout, l.allocSize = l.objectSize + 8 := by
  obtain ⟨c, accepted⟩ :=
    exists_of_isOk (x := (check (Options.checking {}) chains).result) (by decide +kernel)
  have single : chains.SingleChains := by unfold Program.SingleChains; decide
  obtain ⟨t, layout, computed, _, _, numbered, same⟩ := shared_counter_closed_form accepted
  exact ⟨single, c, accepted, t, layout, computed, numbered, same single⟩

end MiniJava
