import Mathlib.Data.List.Nodup
import MiniJava.Json.Record

/-!
# Members of an object

The fields of a record depend on the members of the object as a set, as long as no known key stands
twice; and an array is read as the object with the names of the fields in front of its items.
-/

namespace MiniJava.Json

abbrev Members := List (Option String × Json)

def Members.keys (ms : Members) : List (Option String) := ms.map (·.1)

/-- All keys are texts, and no known one stands twice. -/
structure Keyed (names : List String) (keys : List (Option String)) : Prop where
  named : ∀ key ∈ keys, key.isSome = true
  once : ∀ name ∈ names, keys.count (some name) ≤ 1

section
variable {names : List String} {ms ms' : Members}

theorem keyed_iff : Keyed names ms.keys ↔ (ms.all (·.1.isSome) &&
    names.all fun n => decide (ms.countP (·.1 == some n) ≤ 1)) = true := by
  have count : ∀ n, ms.keys.count (some n) = ms.countP (·.1 == some n) := fun n => List.countP_map
  simp only [Bool.and_eq_true, List.all_eq_true, decide_eq_true_eq, ← count]
  exact ⟨fun h => ⟨fun m hm => h.named _ (List.mem_map_of_mem hm), h.once⟩,
    fun h => ⟨List.forall_mem_map.mpr h.1, h.2⟩⟩

theorem record?_obj (h : Keyed names ms.keys) :
    record? names (.obj ms) = some (names.map fun n => ms.lookup (some n)) :=
  if_pos (keyed_iff.mp h)

theorem record?_obj_none (h : ¬ Keyed names ms.keys) : record? names (.obj ms) = none :=
  if_neg (mt keyed_iff.mpr h)

theorem Keyed.perm {keys keys' : List (Option String)} (h : Keyed names keys)
    (perm : keys.Perm keys') : Keyed names keys' :=
  ⟨fun key hkey => h.named key (perm.mem_iff.mpr hkey),
    fun n hn => perm.count_eq (some n) ▸ h.once n hn⟩

/-- A new key may come to an object. -/
theorem keyed_cons {key : String} {keys : List (Option String)}
    (new : key ∈ names → some key ∉ keys) : Keyed names (some key :: keys) ↔ Keyed names keys := by
  have count : ∀ n ∈ names, (some key :: keys).count (some n) ≤ 1 ↔ keys.count (some n) ≤ 1 := by
    intro n hn
    by_cases same : key = n
    · subst same
      simp [List.count_eq_zero.mpr (new hn)]
    · simp [same]
  exact ⟨fun h => ⟨fun k hk => h.named k (List.mem_cons_of_mem _ hk),
      fun n hn => (count n hn).mp (h.once n hn)⟩,
    fun h => ⟨List.forall_mem_cons.mpr ⟨rfl, h.named⟩, fun n hn => (count n hn).mpr (h.once n hn)⟩⟩

theorem lookup_none {key : Option String} (h : key ∉ ms.keys) : ms.lookup key = none :=
  List.lookup_eq_none_iff.mpr fun m hm => by
    simpa using fun same : key = m.1 => h (same ▸ List.mem_map_of_mem hm)

theorem lookup_append_cons {key : Option String} {v : Json} (h : key ∉ ms.keys) :
    (ms ++ (key, v) :: ms').lookup key = some v := by
  rw [List.lookup_append, lookup_none h, List.lookup_cons_self]
  rfl

theorem lookup_cons_of_ne {key key' : Option String} (v : Json) (h : key ≠ key') :
    List.lookup key ((key', v) :: ms) = ms.lookup key := by
  have other : (key == key') = false := by simpa using h
  rw [List.lookup_cons, other]

theorem lookup_append_cons_of_ne {key key' : Option String} (v : Json) (h : key ≠ key') :
    (ms ++ (key', v) :: ms').lookup key = (ms ++ ms').lookup key := by
  rw [List.lookup_append, List.lookup_append, lookup_cons_of_ne v h]

theorem mem_of_lookup {key : Option String} {v : Json} (h : ms.lookup key = some v) :
    (key, v) ∈ ms := by
  obtain ⟨before, behind, rfl, -⟩ := List.lookup_eq_some_iff.mp h
  simp

theorem not_mem_keys_of_once {key : Option String} {v : Json}
    (once : (ms ++ (key, v) :: ms' : Members).keys.count key ≤ 1) : key ∉ ms.keys := by
  simp only [Members.keys, List.map_append, List.map_cons, List.count_append,
    List.count_cons_self] at once
  exact List.count_eq_zero.mp (by rw [Members.keys]; omega)

/-- A key that stands once belongs to what it is looked up as. -/
theorem lookup_eq_some_iff {key : Option String} {v : Json} (once : ms.keys.count key ≤ 1) :
    ms.lookup key = some v ↔ (key, v) ∈ ms := by
  refine ⟨mem_of_lookup, fun h => ?_⟩
  obtain ⟨before, behind, rfl⟩ := List.append_of_mem h
  exact lookup_append_cons (not_mem_keys_of_once once)

theorem record?_perm (perm : ms.Perm ms') : record? names (.obj ms) = record? names (.obj ms') := by
  have keys : ms.keys.Perm ms'.keys := perm.map Prod.fst
  by_cases h : Keyed names ms.keys
  · have h' := h.perm keys
    rw [record?_obj h, record?_obj h']
    refine congrArg some (List.map_congr_left fun n hn => Option.ext fun v => ?_)
    rw [lookup_eq_some_iff (h.once n hn), lookup_eq_some_iff (h'.once n hn), perm.mem_iff]
  · rw [record?_obj_none h, record?_obj_none fun h' => h (h'.perm keys.symm)]

theorem record?_unknown {key : String} (v : Json) (h : key ∉ names) :
    record? names (.obj ((some key, v) :: ms)) = record? names (.obj ms) := by
  have same : Keyed names (some key :: ms.keys) ↔ Keyed names ms.keys :=
    keyed_cons fun known => absurd known h
  by_cases hm : Keyed names ms.keys
  · rw [record?_obj hm, record?_obj (same.mpr hm)]
    refine congrArg some (List.map_congr_left fun n hn => ?_)
    have other : some n ≠ some key := by
      rintro ⟨⟩
      exact h hn
    exact lookup_cons_of_ne v other
  · rw [record?_obj_none hm, record?_obj_none (mt same.mp hm)]

theorem slot_obj {slots : List (Option Json)} (h : record? names (.obj ms) = some slots) {i : Nat}
    {v : Json} : slots[i]? = some (some v) ↔ ∃ n, names[i]? = some n ∧ (some n, v) ∈ ms := by
  by_cases keyed : Keyed names ms.keys
  · rw [record?_obj keyed] at h
    obtain rfl := Option.some.inj h
    rw [List.getElem?_map, Option.map_eq_some_iff]
    refine exists_congr fun n => and_congr_right fun hn => ?_
    exact lookup_eq_some_iff (keyed.once n (List.mem_of_getElem? hn))
  · rw [record?_obj_none keyed] at h
    cases h

theorem slot_arr {slots : List (Option Json)} {items : List Json}
    (h : record? names (.arr items) = some slots) {i : Nat} {v : Json} :
    slots[i]? = some (some v) ↔ items[i]? = some v := by
  rw [record?] at h
  split at h
  · obtain rfl := Option.some.inj h
    rw [List.getElem?_append]
    split <;> simp_all [List.getElem?_replicate]
  · cases h

end

/-- The items with the names of their fields. -/
def keyedItems (names : List String) (items : List Json) : Members :=
  (names.zip items).map fun (name, v) => (some name, v)

theorem keys_keyedItems (names : List String) (items : List Json) :
    (keyedItems names items).keys = (names.take items.length).map some := by
  induction names generalizing items with
  | nil => simp [keyedItems, Members.keys]
  | cons name names ih =>
    cases items with
    | nil => rfl
    | cons v items => exact congrArg (some name :: ·) (ih items)

theorem keyedItems_concat {names : List String} {items : List Json} {name : String}
    (h : names[items.length]? = some name) (v : Json) :
    keyedItems names (items ++ [v]) = keyedItems names items ++ [(some name, v)] := by
  induction names generalizing items with
  | nil => cases h
  | cons first names ih =>
    cases items with
    | nil =>
      obtain rfl := Option.some.inj h
      simp [keyedItems]
    | cons u items => exact congrArg ((some first, u) :: ·) (ih h)

variable {names : List String} (nodup : names.Nodup)
include nodup

theorem keyed_keyedItems (items : List Json) : Keyed names (keyedItems names items).keys := by
  rw [keys_keyedItems]
  refine ⟨List.forall_mem_map.mpr fun _ _ => rfl, fun n _ => ?_⟩
  have taken : (names.take items.length).Nodup := nodup.sublist (List.take_sublist ..)
  exact List.nodup_iff_count_le_one.mp (taken.map fun _ _ => Option.some.inj) (some n)

theorem map_lookup_keyedItems {items : List Json} (h : items.length ≤ names.length) :
    names.map (fun n => (keyedItems names items).lookup (some n)) =
      items.map some ++ List.replicate (names.length - items.length) none := by
  induction names generalizing items with
  | nil => simp [List.length_eq_zero_iff.mp (Nat.le_zero.mp h)]
  | cons name names ih =>
    obtain ⟨fresh, nodup⟩ := List.nodup_cons.mp nodup
    cases items with
    | nil => simp [keyedItems, List.map_const', List.replicate_succ]
    | cons v items =>
      have rest : ∀ n ∈ names, (keyedItems (name :: names) (v :: items)).lookup (some n) =
          (keyedItems names items).lookup (some n) := fun n hn =>
        lookup_cons_of_ne v fun same => fresh (Option.some.inj same ▸ hn)
      have first : (keyedItems (name :: names) (v :: items)).lookup (some name) = some v :=
        List.lookup_cons_self
      rw [List.map_cons, first, List.map_congr_left rest, ih nodup (by simpa using h)]
      simp

/-- An array is read as an object. -/
theorem record?_keyedItems {items : List Json} (h : items.length ≤ names.length) :
    record? names (.arr items) = record? names (.obj (keyedItems names items)) := by
  rw [record?_obj (keyed_keyedItems nodup items), map_lookup_keyedItems nodup h, record?, if_pos h]

/-- The members of an object that has all fields are, in some order, those fields and others. -/
theorem perm_keyedItems {ms : Members} (keyed : Keyed names ms.keys) {items : List Json}
    (h : names.map (fun n => ms.lookup (some n)) = items.map some) :
    ∃ others : Members, (∀ m ∈ others, ∃ key, key ∉ names ∧ m.1 = some key) ∧
      ms.Perm (others ++ keyedItems names items) := by
  induction names generalizing ms items with
  | nil =>
    refine ⟨ms, fun m hm => ?_, by simp [keyedItems]⟩
    obtain ⟨key, hkey⟩ := Option.isSome_iff_exists.mp (keyed.named m.1 (List.mem_map_of_mem hm))
    exact ⟨key, List.not_mem_nil, hkey⟩
  | cons name names ih =>
    obtain ⟨fresh, nodup⟩ := List.nodup_cons.mp nodup
    obtain ⟨v, items, rfl⟩ : ∃ v vs, items = v :: vs := by
      cases items with
      | nil => cases h
      | cons v items => exact ⟨v, items, rfl⟩
    obtain ⟨first, rest⟩ := List.cons.inj h
    obtain ⟨before, behind, rfl⟩ := List.append_of_mem (mem_of_lookup first)
    have fewer : (Members.keys (before ++ behind)).Sublist
        (Members.keys (before ++ (some name, v) :: behind)) :=
      ((List.sublist_cons_self ..).append_left before).map Prod.fst
    have gone : some name ∉ (Members.keys (before ++ behind)) := by
      have once := keyed.once name List.mem_cons_self
      simp only [Members.keys, List.map_append, List.map_cons, List.count_append,
        List.count_cons_self] at once
      refine List.count_eq_zero.mp ?_
      simp only [Members.keys, List.map_append, List.count_append]
      omega
    have keyed' : Keyed names (Members.keys (before ++ behind)) :=
      ⟨fun key hkey => keyed.named key (fewer.subset hkey), fun n hn =>
        Nat.le_trans (fewer.count_le _) (keyed.once n (List.mem_cons_of_mem name hn))⟩
    have same : ∀ n ∈ names, (before ++ behind).lookup (some n) =
        (before ++ (some name, v) :: behind).lookup (some n) := by
      intro n hn
      have other : some n ≠ some name := fun eq => fresh (Option.some.inj eq ▸ hn)
      exact (lookup_append_cons_of_ne v other).symm
    obtain ⟨others, unknown, perm⟩ := ih nodup keyed' ((List.map_congr_left same).trans rest)
    refine ⟨others, fun m hm => ?_, ?_⟩
    · obtain ⟨key, hkey, eq⟩ := unknown m hm
      refine ⟨key, List.mem_cons.not.mpr (not_or.mpr ⟨?_, hkey⟩), eq⟩
      rintro rfl
      exact gone (eq ▸ List.mem_map_of_mem (perm.mem_iff.mpr (List.mem_append_left _ hm)))
    · exact List.perm_middle.trans ((perm.cons (some name, v)).trans List.perm_middle.symm)

end MiniJava.Json
