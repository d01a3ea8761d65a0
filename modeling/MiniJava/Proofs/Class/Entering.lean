import MiniJava.Proofs.Class.WellFormed

/-!
# Classes that join a table

A class gets the next number and its name stands for it from then on. One whose name is taken is
refused, and the table stays what it was. So names and classes agree after every attempt if they
agreed before.
-/
namespace MiniJava.ClassTable

variable {t : ClassTable} {k : Class}

theorem add_of_new (h : t.find? k.name = none) : t.add k = (some t.size, t.push k) := by
  rw [add, h]

theorem add_of_known {c : ClassId} (h : t.find? k.name = some c) : t.add k = (none, t) := by
  rw [add, h]

theorem get?_push (t : ClassTable) (k : Class) (c : ClassId) :
    (t.push k).get? c = if c = t.size then some k else t.get? c :=
  Array.getElem?_push

theorem get?_push_of_get? {c : ClassId} {l : Class} (h : t.get? c = some l) :
    (t.push k).get? c = some l := by
  rw [get?_push, if_neg (Nat.ne_of_lt (lt_size_of_get? h)), h]

theorem parent?_push (t : ClassTable) (k : Class) (c : ClassId) :
    (t.push k).parent? c = if c = t.size then k.parent else t.parent? c := by
  rw [parent?, get?_push]
  split <;> rfl

theorem isMain_push (t : ClassTable) (k : Class) (c : ClassId) :
    (t.push k).isMain c = if c = t.size then k.isMain else t.isMain c := by
  rw [isMain, get?_push]
  split <;> rfl

theorem fields_push (t : ClassTable) (k : Class) (c : ClassId) :
    (t.push k).fields c = if c = t.size then k.fields else t.fields c := by
  rw [fields, get?_push]
  split <;> rfl

theorem methods_push (t : ClassTable) (k : Class) (c : ClassId) :
    (t.push k).methods c = if c = t.size then k.methods else t.methods c := by
  rw [methods, get?_push]
  split <;> rfl

theorem find?_push (t : ClassTable) (k : Class) (n : Name) :
    (t.push k).find? n = if n = k.name then some t.size else t.find? n := by
  rw [find?, push, List.lookup_cons]
  by_cases same : n = k.name
  · simp [same]
  · rw [beq_false_of_ne same, if_neg same]
    rfl

/-- The new class is found under its name, and the others as before: theirs are other names. -/
theorem Indexed.push (h : t.Indexed) (name_new : t.find? k.name = none) : (t.push k).Indexed where
  find?_eq_some_iff := by
    intro n c
    rw [find?_push, get?_push]
    by_cases same : n = k.name
    · subst same
      rw [if_pos rfl]
      constructor
      · rintro ⟨⟩
        exact ⟨k, if_pos rfl, rfl⟩
      · rintro ⟨l, hl, name⟩
        by_cases last : c = t.size
        · rw [last]
        · rw [if_neg last] at hl
          have taken := h.find?_eq_some_iff.mpr ⟨l, hl, name⟩
          rw [name_new] at taken
          cases taken
    · rw [if_neg same, h.find?_eq_some_iff]
      refine exists_congr fun l => and_congr_left fun name => ?_
      by_cases last : c = t.size
      · rw [if_pos last]
        constructor
        · intro hl
          exact absurd (lt_size_of_get? hl) (last ▸ Nat.lt_irrefl _)
        · rintro ⟨⟩
          exact absurd name.symm same
      · rw [if_neg last]

theorem indexed_empty : Indexed .empty where
  find?_eq_some_iff := ⟨nofun, nofun⟩

theorem Indexed.add (h : t.Indexed) (k : Class) : (t.add k).2.Indexed := by
  cases known : t.find? k.name with
  | none =>
    rw [add_of_new known]
    exact h.push known
  | some c =>
    rw [add_of_known known]
    exact h

/-- A class joins a forest below one of the classes that are there. -/
theorem forest_push (h : t.Forest) (earlier : ∀ p, k.parent = some p → p < t.size) :
    (t.push k).Forest := by
  intro c p hp
  rw [parent?_push] at hp
  split at hp
  · rename_i hc
    exact hc ▸ earlier p hp
  · exact h hp

/-- A class may join a well-formed table if its name is new, its parent an earlier class that is
not the main class, and its members have names of their own. -/
theorem wellFormed_push (h : t.WellFormed) (name_new : t.find? k.name = none)
    (not_main : k.isMain = false)
    (parent_ok : ∀ p, k.parent = some p → p < t.size ∧ t.isMain p = false)
    (fields_nodup : (k.fields.map (·.name)).Nodup)
    (methods_nodup : (k.methods.map (·.name)).Nodup)
    (owner : ∀ m ∈ k.methods, m.owner = t.size) : (t.push k).WellFormed := by
  have size_ne_zero : t.size ≠ 0 := by
    intro hz
    have hmain := h.isMain_iff.mpr (rfl : (0 : ClassId) = 0)
    rw [isMain, get?, Array.getElem?_eq_none (Nat.le_of_eq hz)] at hmain
    cases hmain
  exact
    { indexed := h.indexed.push name_new
      forest := forest_push h.forest fun p hp => (parent_ok p hp).1
      parent_not_main := by
        intro c p hp
        rw [parent?_push] at hp
        rw [isMain_push]
        split at hp
        · obtain ⟨hlt, hm⟩ := parent_ok p hp
          rw [if_neg (Nat.ne_of_lt hlt), hm]
        · rw [if_neg, h.parent_not_main hp]
          intro heq
          obtain ⟨l, hl, _⟩ := get?_of_parent? hp
          exact absurd (h.forest hp) (Nat.not_lt_of_le (heq ▸ Nat.le_of_lt (lt_size_of_get? hl)))
      isMain_iff := by
        intro c
        rw [isMain_push]
        split
        · rename_i hc
          rw [not_main, hc]
          exact ⟨fun hf => absurd hf Bool.false_ne_true, fun hz => absurd hz size_ne_zero⟩
        · exact h.isMain_iff
      main_top := by
        rw [parent?_push, if_neg size_ne_zero.symm, h.main_top]
      main_fields := by
        rw [fields_push, if_neg size_ne_zero.symm, h.main_fields]
      main_methods := by
        rw [methods_push, if_neg size_ne_zero.symm, h.main_methods]
      fieldNames_nodup := by
        intro c
        rw [fields_push]
        split
        · exact fields_nodup
        · exact h.fieldNames_nodup c
      methodNames_nodup := by
        intro c
        rw [methods_push]
        split
        · exact methods_nodup
        · exact h.methodNames_nodup c
      owner_eq := by
        intro c
        rw [methods_push]
        split
        · rename_i hc
          exact fun m hm => (owner m hm).trans hc.symm
        · exact h.owner_eq c }

end MiniJava.ClassTable
