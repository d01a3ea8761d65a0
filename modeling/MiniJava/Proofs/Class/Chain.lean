import MiniJava.Class.Table

/-!
# Chains of ancestors

In a forest every parent stands before its children, so the bounded walk that collects the
ancestors of a class always reaches the topmost one. Lookups along the chain then follow the
parent: a class sees its own declaration, and otherwise what its parent sees.
-/
namespace MiniJava.ClassTable

/-- Every parent has a smaller number than its children. -/
def Forest (t : ClassTable) : Prop := ∀ {c p}, t.parent? c = some p → p < c

/-- `a` is the class `c` itself or one of its ancestors. -/
inductive Descends (t : ClassTable) : ClassId → ClassId → Prop
  | self (c : ClassId) : Descends t c c
  | up {c p a : ClassId} : t.parent? c = some p → Descends t p a → Descends t c a

variable {t : ClassTable}

/-- Induction along parents: from the topmost classes down to their children. -/
theorem Forest.induction (h : t.Forest) {motive : ClassId → Prop}
    (top : ∀ c, t.parent? c = none → motive c)
    (child : ∀ c p, t.parent? c = some p → motive p → motive c) (c : ClassId) : motive c := by
  induction c using Nat.strongRecOn with
  | ind c ih =>
    cases hp : t.parent? c with
    | none => exact top c hp
    | some p => exact child c p hp (ih p (h hp))

theorem climb_of_top {c : ClassId} (hc : t.parent? c = none) (steps : Nat) :
    t.climb steps c = [] := by
  cases steps with
  | zero => rfl
  | succ steps => simp [climb, hc]

/-- More steps than the number of the class collect no more ancestors. -/
theorem Forest.climb_eq_ancestors (h : t.Forest) (c : ClassId) :
    ∀ steps, c ≤ steps → t.climb steps c = t.ancestors c := by
  induction c using Nat.strongRecOn with
  | ind c ih =>
    intro steps hsteps
    cases hp : t.parent? c with
    | none => rw [climb_of_top hp, ancestors, climb_of_top hp]
    | some p =>
      have hlt : p < c := h hp
      obtain ⟨n, rfl⟩ := Nat.exists_eq_add_of_lt (Nat.lt_of_lt_of_le hlt hsteps)
      obtain ⟨d, rfl⟩ := Nat.exists_eq_add_of_lt hlt
      simp only [ancestors, climb, hp]
      rw [ih p hlt _ (Nat.le_add_right p n), ih p hlt _ (Nat.le_add_right p d)]

theorem ancestors_of_top {c : ClassId} (hc : t.parent? c = none) : t.ancestors c = [] :=
  climb_of_top hc c

theorem Forest.ancestors_of_parent (h : t.Forest) {c p : ClassId} (hp : t.parent? c = some p) :
    t.ancestors c = t.chain p := by
  obtain ⟨d, rfl⟩ := Nat.exists_eq_add_of_lt (h hp)
  rw [chain, ← h.climb_eq_ancestors p _ (Nat.le_add_right p d)]
  simp only [ancestors, climb, hp]

theorem chain_of_top {c : ClassId} (hc : t.parent? c = none) : t.chain c = [c] := by
  rw [chain, ancestors_of_top hc]

theorem Forest.chain_of_parent (h : t.Forest) {c p : ClassId} (hp : t.parent? c = some p) :
    t.chain c = c :: t.chain p := by
  rw [chain, h.ancestors_of_parent hp]

/-- What a topmost class sees is what it declares. -/
theorem flatMap_chain_of_top {α : Type} {c : ClassId} (hc : t.parent? c = none)
    (own : ClassId → List α) : (t.chain c).flatMap own = own c := by
  rw [chain_of_top hc, List.flatMap_singleton]

/-- Any other class also sees what its parent sees. -/
theorem Forest.flatMap_chain_of_parent {α : Type} (h : t.Forest) {c p : ClassId}
    (hp : t.parent? c = some p) (own : ClassId → List α) :
    (t.chain c).flatMap own = own c ++ (t.chain p).flatMap own := by
  rw [h.chain_of_parent hp, List.flatMap_cons]

theorem mem_chain_self (t : ClassTable) (c : ClassId) : c ∈ t.chain c := List.mem_cons_self

theorem Forest.mem_chain_iff (h : t.Forest) {c a : ClassId} :
    a ∈ t.chain c ↔ t.Descends c a := by
  constructor
  · induction c using h.induction with
    | top c hc =>
      intro ha
      rw [chain_of_top hc, List.mem_singleton] at ha
      exact ha ▸ Descends.self a
    | child c p hp ih =>
      intro ha
      rw [h.chain_of_parent hp, List.mem_cons] at ha
      rcases ha with rfl | ha
      · exact .self a
      · exact .up hp (ih ha)
  · intro ha
    induction ha with
    | self c => exact mem_chain_self t c
    | up hp _ ih =>
      rw [h.chain_of_parent hp]
      exact List.mem_cons_of_mem _ ih

theorem Forest.descends_le (h : t.Forest) {c a : ClassId} (ha : t.Descends c a) : a ≤ c := by
  induction ha with
  | self c => exact Nat.le_refl c
  | up hp _ ih => exact Nat.le_trans ih (Nat.le_of_lt (h hp))

theorem Forest.le_of_mem_chain (h : t.Forest) {c a : ClassId} (ha : a ∈ t.chain c) : a ≤ c :=
  h.descends_le (h.mem_chain_iff.mp ha)

theorem Descends.trans {c a b : ClassId} (hca : t.Descends c a) (hab : t.Descends a b) :
    t.Descends c b := by
  induction hca with
  | self _ => exact hab
  | up hp _ ih => exact .up hp (ih hab)

theorem root_of_top {c : ClassId} (hc : t.parent? c = none) : t.root c = c := by
  rw [root, ancestors_of_top hc]
  rfl

theorem Forest.root_of_parent (h : t.Forest) {c p : ClassId} (hp : t.parent? c = some p) :
    t.root c = t.root p := by
  rw [root, h.ancestors_of_parent hp, chain]
  cases ha : t.ancestors p with
  | nil => simp [root, ha]
  | cons a as =>
    rw [List.getLast?_cons_cons, root, ha]
    cases hl : (a :: as).getLast? with
    | none => simp at hl
    | some b => rfl

theorem Forest.root_le (h : t.Forest) (c : ClassId) : t.root c ≤ c := by
  induction c using h.induction with
  | top c hc => exact Nat.le_of_eq (root_of_top hc)
  | child c p hp ih =>
    rw [h.root_of_parent hp]
    exact Nat.le_trans ih (Nat.le_of_lt (h hp))

theorem findMethod?_of_own {c : ClassId} {m : Name} {i : Nat} (hi : t.ownMethod? c m = some i) :
    t.findMethod? c m = some ⟨c, i⟩ := by
  simp [findMethod?, chain, hi]

theorem findMethod?_of_top {c : ClassId} {m : Name} (hc : t.parent? c = none)
    (hi : t.ownMethod? c m = none) : t.findMethod? c m = none := by
  simp [findMethod?, chain_of_top hc, hi]

theorem Forest.findMethod?_of_parent (h : t.Forest) {c p : ClassId} {m : Name}
    (hp : t.parent? c = some p) (hi : t.ownMethod? c m = none) :
    t.findMethod? c m = t.findMethod? p m := by
  simp [findMethod?, h.chain_of_parent hp, hi]

theorem findField?_of_own {c : ClassId} {x : Name} {i : Nat} (hi : t.ownField? c x = some i) :
    t.findField? c x = some ⟨c, i⟩ := by
  simp [findField?, chain, hi]

theorem findField?_of_top {c : ClassId} {x : Name} (hc : t.parent? c = none)
    (hi : t.ownField? c x = none) : t.findField? c x = none := by
  simp [findField?, chain_of_top hc, hi]

theorem Forest.findField?_of_parent (h : t.Forest) {c p : ClassId} {x : Name}
    (hp : t.parent? c = some p) (hi : t.ownField? c x = none) :
    t.findField? c x = t.findField? p x := by
  simp [findField?, h.chain_of_parent hp, hi]

theorem findMethod?_eq_some {c : ClassId} {m : Name} {r : MethodRef}
    (hr : t.findMethod? c m = some r) :
    r.cls ∈ t.chain c ∧ t.ownMethod? r.cls m = some r.index := by
  obtain ⟨k, hk, hi⟩ := List.exists_of_findSome?_eq_some hr
  obtain ⟨i, hi, hr⟩ := Option.map_eq_some_iff.mp hi
  exact ⟨hr ▸ hk, hr ▸ hi⟩

theorem findField?_eq_some {c : ClassId} {x : Name} {r : FieldRef}
    (hr : t.findField? c x = some r) :
    r.cls ∈ t.chain c ∧ t.ownField? r.cls x = some r.index := by
  obtain ⟨k, hk, hi⟩ := List.exists_of_findSome?_eq_some hr
  obtain ⟨i, hi, hr⟩ := Option.map_eq_some_iff.mp hi
  exact ⟨hr ▸ hk, hr ▸ hi⟩

theorem exists_method_of_own {c : ClassId} {m : Name} {i : Nat} (hi : t.ownMethod? c m = some i) :
    ∃ k, t.method? ⟨c, i⟩ = some k ∧ k.name = m := by
  obtain ⟨hlt, hname, _⟩ := List.findIdx?_eq_some_iff_getElem.mp hi
  exact ⟨(t.methods c)[i], by simp [method?], by simpa using hname⟩

theorem exists_field_of_own {c : ClassId} {x : Name} {i : Nat} (hi : t.ownField? c x = some i) :
    ∃ k, t.field? ⟨c, i⟩ = some k ∧ k.name = x := by
  obtain ⟨hlt, hname, _⟩ := List.findIdx?_eq_some_iff_getElem.mp hi
  exact ⟨(t.fields c)[i], by simp [field?], by simpa using hname⟩

/-- A method that was found is there, and has the name that was looked up. -/
theorem exists_method_of_find {c : ClassId} {m : Name} {r : MethodRef}
    (hr : t.findMethod? c m = some r) : ∃ k, t.method? r = some k ∧ k.name = m :=
  exists_method_of_own (findMethod?_eq_some hr).2

theorem exists_field_of_find {c : ClassId} {x : Name} {r : FieldRef}
    (hr : t.findField? c x = some r) : ∃ k, t.field? r = some k ∧ k.name = x :=
  exists_field_of_own (findField?_eq_some hr).2

/-- What an ancestor sees under a name, its descendants see under the name as well. -/
theorem Forest.findMethod?_isSome_of_descends (h : t.Forest) {c a : ClassId} {m : Name}
    (ha : t.Descends c a) (hr : (t.findMethod? a m).isSome) : (t.findMethod? c m).isSome := by
  induction ha with
  | self _ => exact hr
  | @up c p a hp _ ih =>
    cases hi : t.ownMethod? c m with
    | none => rw [h.findMethod?_of_parent hp hi]; exact ih hr
    | some i => rw [findMethod?_of_own hi]; rfl

end MiniJava.ClassTable
