import MiniJava.Proofs.Hierarchy
import MiniJava.Layout.VTable

/-!
# Inherited methods

The list of inherited methods of a class agrees with looking names up along the chain: under each
name that the class does not declare it holds the nearest declaration above, and it holds no name
twice. So the own methods of a class and its inherited ones are exactly the methods it sees.
-/
namespace MiniJava.Check

open ClassTable

/-- What a list of inherited methods holds under a name. -/
def lookup (kept : List Inherited) (m : Name) : Option MethodRef :=
  (kept.find? (·.name == m)).map (·.method)

@[simp] theorem lookup_nil (m : Name) : lookup [] m = none := rfl

theorem lookup_cons (e : Inherited) (es : List Inherited) (m : Name) :
    lookup (e :: es) m = if e.name = m then some e.method else lookup es m := by
  unfold lookup
  by_cases h : e.name = m
  · rw [List.find?_cons_of_pos (by simp [h]), if_pos h]
    rfl
  · rw [List.find?_cons_of_neg (by simp [h]), if_neg h]

theorem lookup_place (e : Inherited) (kept : List Inherited) (m : Name) :
    lookup (place e kept) m = if e.name = m then some e.method else lookup kept m := by
  induction kept with
  | nil => rw [place, lookup_cons]
  | cons k ks ih =>
    rw [place]
    split
    · rename_i heq
      rw [lookup_cons, lookup_cons, heq]
      split <;> rfl
    · rename_i hne
      rw [lookup_cons, lookup_cons, ih]
      by_cases hk : k.name = m
      · rw [if_pos hk, if_pos hk, if_neg]
        exact fun he => hne (hk.trans he.symm)
      · rw [if_neg hk, if_neg hk]

theorem mem_names_place {e : Inherited} {kept : List Inherited} {n : Name} :
    n ∈ (place e kept).map (·.name) → n = e.name ∨ n ∈ kept.map (·.name) := by
  induction kept with
  | nil =>
    intro hn
    exact Or.inl (by simpa [place] using hn)
  | cons k ks ih =>
    intro hn
    rw [place] at hn
    split at hn
    · rcases List.mem_cons.mp hn with rfl | hn
      · exact Or.inl rfl
      · exact Or.inr (List.mem_cons_of_mem _ hn)
    · rcases List.mem_cons.mp hn with rfl | hn
      · exact Or.inr List.mem_cons_self
      · exact (ih hn).imp_right (List.mem_cons_of_mem _)

theorem nodup_names_place (e : Inherited) {kept : List Inherited}
    (h : (kept.map (·.name)).Nodup) : ((place e kept).map (·.name)).Nodup := by
  induction kept with
  | nil => simp [place]
  | cons k ks ih =>
    have hk : k.name ∉ ks.map (·.name) := (List.nodup_cons.mp h).1
    have hks := (List.nodup_cons.mp h).2
    rw [place]
    split
    · rename_i heq
      rw [heq] at hk
      exact List.nodup_cons.mpr ⟨hk, hks⟩
    · rename_i hne
      refine List.nodup_cons.mpr ⟨?_, ih hks⟩
      intro hmem
      rcases mem_names_place hmem with heq | hmem
      · exact hne heq
      · exact hk hmem

theorem mem_iff_lookup {kept : List Inherited} (h : (kept.map (·.name)).Nodup) {e : Inherited} :
    e ∈ kept ↔ lookup kept e.name = some e.method := by
  induction kept with
  | nil => simp
  | cons k ks ih =>
    have hk : k.name ∉ ks.map (·.name) := (List.nodup_cons.mp h).1
    have hks := (List.nodup_cons.mp h).2
    rw [lookup_cons, List.mem_cons]
    by_cases heq : k.name = e.name
    · rw [if_pos heq]
      rw [heq] at hk
      constructor
      · rintro (rfl | hmem)
        · rfl
        · exact absurd (List.mem_map_of_mem hmem) hk
      · intro hm
        left
        cases e
        cases k
        simp_all
    · rw [if_neg heq, ← ih hks]
      constructor
      · rintro (rfl | hmem)
        · exact absurd rfl heq
        · exact hmem
      · exact Or.inr

section Step
variable (t : ClassTable) (c a : ClassId)

/-- One method of an ancestor joins, unless the class declares its name. -/
def inheritOne (kept : List Inherited) (x : Method × Nat) : List Inherited :=
  if (t.ownMethod? c x.1.name).isSome then kept else place ⟨x.1.name, ⟨a, x.2⟩⟩ kept

theorem inheritFrom_eq (kept : List Inherited) :
    inheritFrom t c a kept = (t.methods a).zipIdx.foldl (inheritOne t c a) kept := rfl

variable {t c a}

theorem lookup_inheritOne_of_ne {kept : List Inherited} {x : Method × Nat} {m : Name}
    (h : x.1.name ≠ m) : lookup (inheritOne t c a kept x) m = lookup kept m := by
  unfold inheritOne
  split
  · rfl
  · rw [lookup_place, if_neg h]

theorem lookup_inheritOne_of_own {kept : List Inherited} {x : Method × Nat} {m : Name}
    (h : (t.ownMethod? c m).isSome) : lookup (inheritOne t c a kept x) m = lookup kept m := by
  by_cases hx : x.1.name = m
  · rw [inheritOne, hx, if_pos h]
  · exact lookup_inheritOne_of_ne hx

theorem lookup_foldl_of_not_mem {m : Name} (xs : List (Method × Nat)) :
    ∀ kept, (∀ x ∈ xs, x.1.name ≠ m) →
      lookup (xs.foldl (inheritOne t c a) kept) m = lookup kept m := by
  induction xs with
  | nil => intro kept _; rfl
  | cons x xs ih =>
    intro kept h
    rw [List.foldl_cons, ih _ fun y hy => h y (List.mem_cons_of_mem x hy)]
    exact lookup_inheritOne_of_ne (h x List.mem_cons_self)

theorem lookup_foldl_of_own {m : Name} (h : (t.ownMethod? c m).isSome)
    (xs : List (Method × Nat)) :
    ∀ kept, lookup (xs.foldl (inheritOne t c a) kept) m = lookup kept m := by
  induction xs with
  | nil => intro kept; rfl
  | cons x xs ih =>
    intro kept
    rw [List.foldl_cons, ih]
    exact lookup_inheritOne_of_own h

theorem lookup_foldl_of_mem {m : Name} (hown : t.ownMethod? c m = none) {i : Nat} {k : Method}
    (hk : k.name = m) (xs : List (Method × Nat)) :
    ∀ kept, (xs.map fun x => x.1.name).Nodup → (k, i) ∈ xs →
      lookup (xs.foldl (inheritOne t c a) kept) m = some ⟨a, i⟩ := by
  induction xs with
  | nil => intro kept _ hmem; cases hmem
  | cons x xs ih =>
    intro kept nodup hmem
    obtain ⟨hx, hxs⟩ := List.nodup_cons.mp nodup
    rw [List.foldl_cons]
    rcases List.mem_cons.mp hmem with rfl | hmem
    · rw [lookup_foldl_of_not_mem]
      · have joins : inheritOne t c a kept (k, i) = place ⟨m, ⟨a, i⟩⟩ kept := by
          simp [inheritOne, hk, hown]
        rw [joins, lookup_place, if_pos rfl]
      · intro y hy heq
        exact hx (List.mem_map.mpr ⟨y, hy, heq.trans hk.symm⟩)
    · exact ih _ hxs hmem

theorem nodup_foldl (xs : List (Method × Nat)) :
    ∀ kept, (kept.map (·.name)).Nodup →
      ((xs.foldl (inheritOne t c a) kept).map (·.name)).Nodup := by
  induction xs with
  | nil => intro kept h; exact h
  | cons x xs ih =>
    intro kept h
    apply ih
    unfold inheritOne
    split
    · exact h
    · exact nodup_names_place _ h

end Step

variable {t : ClassTable} {c : ClassId}

/-- A nearer ancestor takes the place of those above it. -/
theorem lookup_inheritFrom (h : t.WellFormed) {m : Name} (hown : t.ownMethod? c m = none)
    (a : ClassId) (kept : List Inherited) :
    lookup (inheritFrom t c a kept) m =
      ((t.ownMethod? a m).map (MethodRef.mk a)).or (lookup kept m) := by
  rw [inheritFrom_eq]
  have names : ((t.methods a).zipIdx.map fun x => x.1.name).Nodup := by
    have hn := h.methodNames_nodup a
    rwa [← List.zipIdx_map_fst 0 (t.methods a), List.map_map] at hn
  cases ha : t.ownMethod? a m with
  | none =>
    rw [lookup_foldl_of_not_mem]
    · rfl
    · intro x hx heq
      have hmem : x.1 ∈ t.methods a := (List.mem_zipIdx' hx).2 ▸ List.getElem_mem _
      exact absurd heq (by simpa using List.findIdx?_eq_none_iff.mp ha x.1 hmem)
  | some i =>
    obtain ⟨k, hk, hname⟩ := exists_method_of_own ha
    exact lookup_foldl_of_mem hown hname _ kept names (List.mk_mem_zipIdx_iff_getElem?.mpr hk)

theorem lookup_foldr_inheritFrom (h : t.WellFormed) {m : Name} (hown : t.ownMethod? c m = none)
    (as : List ClassId) :
    lookup (as.foldr (fun a kept => inheritFrom t c a kept) []) m =
      as.findSome? fun a => (t.ownMethod? a m).map (MethodRef.mk a) := by
  induction as with
  | nil => rfl
  | cons a as ih =>
    rw [List.foldr_cons, lookup_inheritFrom h hown, ih, List.findSome?_cons]
    cases t.ownMethod? a m <;> rfl

theorem lookup_inheritedOf (h : t.WellFormed) {m : Name} (hown : t.ownMethod? c m = none) :
    lookup (inheritedOf t c) m = t.findMethod? c m := by
  rw [inheritedOf, List.foldl_reverse, lookup_foldr_inheritFrom h hown, findMethod?, chain,
    List.findSome?_cons, hown]
  rfl

theorem lookup_inheritedOf_of_own {m : Name} (hown : (t.ownMethod? c m).isSome) :
    lookup (inheritedOf t c) m = none := by
  rw [inheritedOf, List.foldl_reverse]
  induction t.ancestors c with
  | nil => rfl
  | cons a as ih => rw [List.foldr_cons, inheritFrom_eq, lookup_foldl_of_own hown, ih]

theorem nodup_inheritedOf (t : ClassTable) (c : ClassId) :
    ((inheritedOf t c).map (·.name)).Nodup := by
  rw [inheritedOf, List.foldl_reverse]
  induction t.ancestors c with
  | nil => exact List.nodup_nil
  | cons a as ih =>
    rw [List.foldr_cons, inheritFrom_eq]
    exact nodup_foldl _ _ ih

/-- The inherited list holds what a class sees and does not declare itself. -/
theorem mem_inheritedOf_iff (h : t.WellFormed) {e : Inherited} :
    e ∈ inheritedOf t c ↔
      t.ownMethod? c e.name = none ∧ t.findMethod? c e.name = some e.method := by
  rw [mem_iff_lookup (nodup_inheritedOf t c)]
  cases hown : t.ownMethod? c e.name with
  | none => simp [lookup_inheritedOf h hown]
  | some i => simp [lookup_inheritedOf_of_own (by rw [hown]; rfl : (t.ownMethod? c e.name).isSome)]

/-- A table of methods is built of exactly the methods that its class sees. -/
theorem mem_refs_iff (h : t.WellFormed) (listed : t.InheritanceListed) {r : MethodRef}
    (hc : c < t.size) : r ∈ VTable.refs t c ↔ ∃ m, t.findMethod? c m = some r := by
  obtain ⟨k, hk⟩ := get?_of_lt_size hc
  have inherited : ((t.get? c).map (·.inherited)).getD [] = inheritedOf t c := by
    rw [hk]
    exact listed hk
  rw [VTable.refs, inherited, List.mem_append]
  constructor
  · rintro (hr | hr)
    · obtain ⟨e, he, rfl⟩ := List.mem_map.mp hr
      exact ⟨e.name, ((mem_inheritedOf_iff h).mp he).2⟩
    · obtain ⟨i, hi, rfl⟩ := List.mem_map.mp hr
      have hlt := List.mem_range.mp hi
      have hm : t.method? ⟨c, i⟩ = some (t.methods c)[i] := List.getElem?_eq_getElem hlt
      exact ⟨_, findMethod?_of_own (h.ownMethod?_of_method? hm)⟩
  · rintro ⟨m, hm⟩
    cases hown : t.ownMethod? c m with
    | none =>
      exact Or.inl (List.mem_map.mpr ⟨⟨m, r⟩, (mem_inheritedOf_iff h).mpr ⟨hown, hm⟩, rfl⟩)
    | some i =>
      rw [findMethod?_of_own hown] at hm
      obtain ⟨hlt, _⟩ := List.findIdx?_eq_some_iff_getElem.mp hown
      exact Or.inr (List.mem_map.mpr ⟨i, List.mem_range.mpr hlt, Option.some.inj hm⟩)

end MiniJava.Check
