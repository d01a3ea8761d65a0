import MiniJava.Proofs.Document.Schema
import MiniJava.Proofs.Json.Members

/-!
# Levels that reading opens

How many brackets have to be open at once to read a value at a position of some shape; values behind
unknown keys are skipped and open none. Once a value is read with some number of levels, it is read
with just those numbers that reach the levels of the value, and always as the same tree.
-/

namespace MiniJava.Document
open Json

mutual

/-- The levels that reading by a shape opens. -/
def Shape.levels : Shape → Json → Nat
  | .record r, .obj members => 1 + Shape.memberLevels (r.fields.lookup ·) members
  | .choice c, .obj members => 1 + Shape.memberLevels c.content? members
  | .record r, .arr items => 1 + Shape.itemLevels r.shapes items
  | .tuple t, .arr items => 1 + Shape.itemLevels t.parts items
  | .list item, .arr items => 1 + Shape.itemLevels (List.replicate items.length (.record item)) items
  | _, _ => 0

def Shape.itemLevels : List Shape → List Json → Nat
  | s :: ss, v :: vs => max (Shape.levels s v) (Shape.itemLevels ss vs)
  | _, _ => 0

def Shape.memberLevels (shape? : String → Option Shape) : List (Option String × Json) → Nat
  | [] => 0
  | m :: ms => max (Shape.memberLevel shape? m) (Shape.memberLevels shape? ms)

def Shape.memberLevel (shape? : String → Option Shape) : Option String × Json → Nat
  | (key, v) =>
    match key.bind shape? with
    | some s => Shape.levels s v
    | none => 0

end

theorem Shape.levels_record_obj (r : Record) (ms : Members) :
    (Shape.record r).levels (.obj ms) = 1 + memberLevels (r.fields.lookup ·) ms := rfl

theorem Shape.levels_record_arr (r : Record) (items : List Json) :
    (Shape.record r).levels (.arr items) = 1 + itemLevels r.shapes items := rfl

theorem Shape.levels_tuple (t : Tuple) (items : List Json) :
    (Shape.tuple t).levels (.arr items) = 1 + itemLevels t.parts items := rfl

theorem Shape.levels_list (item : Record) (items : List Json) : (Shape.list item).levels (.arr items) =
    1 + itemLevels (List.replicate items.length (.record item)) items := rfl

theorem Shape.levels_choice (c : Choice) (ms : Members) :
    (Shape.choice c).levels (.obj ms) = 1 + memberLevels c.content? ms := rfl

/-- What is looked at inside a value. -/
inductive Part : Shape → Json → Shape → Json → Prop where
  | slot {r : Record} {v w : Json} {slots : List (Option Json)} {i : Nat} {s : Shape}
      (h : record? r.names v = some slots) (hs : r.shapes[i]? = some s)
      (hw : slots[i]? = some (some w)) : Part (.record r) v s w
  | item {item : Record} {items : List Json} {w : Json} (hw : w ∈ items) :
      Part (.list item) (.arr items) (.record item) w
  | part {t : Tuple} {items : List Json} {w : Json} {i : Nat} {s : Shape}
      (hs : t.parts[i]? = some s) (hw : items[i]? = some w) : Part (.tuple t) (.arr items) s w
  | content {c : Choice} {tag : String} {s : Shape} {w : Json} (hs : c.content? tag = some s) :
      Part (.choice c) (.obj [(some tag, w)]) s w

theorem Shape.itemLevels_le {ss : List Shape} {vs : List Json} {n : Nat} : itemLevels ss vs ≤ n ↔
    ∀ (i : Nat) (s : Shape) (v : Json), ss[i]? = some s → vs[i]? = some v → s.levels v ≤ n := by
  induction ss generalizing vs with
  | nil => simp [Shape.itemLevels]
  | cons s ss ih =>
    cases vs with
    | nil => simp [Shape.itemLevels]
    | cons v vs =>
      rw [Shape.itemLevels, Nat.max_le, ih]
      constructor
      · rintro ⟨first, rest⟩ i t w ht hw
        cases i with
        | zero =>
          obtain rfl := Option.some.inj ht
          obtain rfl := Option.some.inj hw
          exact first
        | succ i => exact rest i t w ht hw
      · exact fun h => ⟨h 0 s v rfl rfl, fun i => h (i + 1)⟩

theorem Shape.memberLevels_le {shape? : String → Option Shape} {ms : Members} {n : Nat} :
    Shape.memberLevels shape? ms ≤ n ↔
      ∀ key s v, (some key, v) ∈ ms → shape? key = some s → s.levels v ≤ n := by
  induction ms with
  | nil => simp [Shape.memberLevels]
  | cons m ms ih =>
    rw [Shape.memberLevels, Nat.max_le, ih]
    have first : Shape.memberLevel shape? m ≤ n ↔
        ∀ key s v, (some key, v) = m → shape? key = some s → s.levels v ≤ n := by
      obtain ⟨key, v⟩ := m
      rw [Shape.memberLevel]
      cases key with
      | none => simp
      | some key =>
        cases h : shape? key with
        | none => simp_all
        | some s => simp_all
    rw [first]
    constructor
    · rintro ⟨first, rest⟩ key s v (_ | ⟨_, hv⟩)
      · exact first key s v rfl
      · exact rest key s v hv
    · exact fun h => ⟨fun key s v hv => h key s v (hv ▸ List.mem_cons_self),
        fun key s v hv => h key s v (List.mem_cons_of_mem m hv)⟩

theorem names_nodup (r : Record) : r.names.Nodup := by
  cases r <;> decide

theorem mem_fields_iff {r : Record} {name : String} {s : Shape} :
    (name, s) ∈ r.fields ↔ ∃ i : Nat, r.names[i]? = some name ∧ r.shapes[i]? = some s := by
  rw [List.mem_iff_getElem?]
  refine exists_congr fun i => ?_
  rw [Record.names, Record.shapes, List.getElem?_map, List.getElem?_map]
  cases r.fields[i]? <;> simp [Prod.ext_iff]

theorem lookup_fields {r : Record} {name : String} {s : Shape} :
    r.fields.lookup name = some s ↔ (name, s) ∈ r.fields := by
  refine ⟨fun h => ?_, fun h => ?_⟩
  · obtain ⟨before, behind, eq, -⟩ := List.lookup_eq_some_iff.mp h
    simp [eq]
  · obtain ⟨before, behind, eq⟩ := List.append_of_mem h
    refine List.lookup_eq_some_iff.mpr ⟨before, behind, eq, fun p hp => ?_⟩
    have nodup := names_nodup r
    rw [Record.names, eq, List.map_append, List.map_cons, List.nodup_append] at nodup
    have other := nodup.2.2 p.1 (List.mem_map_of_mem hp) name List.mem_cons_self
    simpa using other.symm

theorem levels_fields_le {r : Record} {ms : Members} {n : Nat} :
    (Shape.record r).levels (.obj ms) ≤ n + 1 ↔
      ∀ name s v, (some name, v) ∈ ms → (name, s) ∈ r.fields → s.levels v ≤ n := by
  rw [Shape.levels_record_obj, Nat.add_comm, Nat.add_le_add_iff_right, Shape.memberLevels_le]
  simp only [lookup_fields]

theorem levels_slots_le {r : Record} {items : List Json} {n : Nat} :
    (Shape.record r).levels (.arr items) ≤ n + 1 ↔ ∀ (i : Nat) (s : Shape) (v : Json),
      r.shapes[i]? = some s → items[i]? = some v → s.levels v ≤ n := by
  rw [Shape.levels_record_arr, Nat.add_comm, Nat.add_le_add_iff_right, Shape.itemLevels_le]

theorem levels_items_le {item : Record} {items : List Json} {n : Nat} :
    (Shape.list item).levels (.arr items) ≤ n + 1 ↔
      ∀ v ∈ items, (Shape.record item).levels v ≤ n := by
  rw [Shape.levels_list, Nat.add_comm, Nat.add_le_add_iff_right, Shape.itemLevels_le]
  constructor
  · intro h v hv
    obtain ⟨i, hi, rfl⟩ := List.mem_iff_getElem.mp hv
    exact h i _ _ (by simp [hi]) (List.getElem?_eq_getElem hi)
  · intro h i s v hs hv
    obtain rfl := (List.mem_replicate.mp (List.mem_of_getElem? hs)).2
    exact h v (List.mem_of_getElem? hv)

theorem levels_parts_le {t : Tuple} {items : List Json} {n : Nat} :
    (Shape.tuple t).levels (.arr items) ≤ n + 1 ↔ ∀ (i : Nat) (s : Shape) (v : Json),
      t.parts[i]? = some s → items[i]? = some v → s.levels v ≤ n := by
  rw [Shape.levels_tuple, Nat.add_comm, Nat.add_le_add_iff_right, Shape.itemLevels_le]

theorem levels_content_le {c : Choice} {tag : String} {content : Json} {n : Nat} :
    (Shape.choice c).levels (.obj [(some tag, content)]) ≤ n + 1 ↔
      ∀ s, c.content? tag = some s → s.levels content ≤ n := by
  rw [Shape.levels_choice, Nat.add_comm, Nat.add_le_add_iff_right, Shape.memberLevels_le]
  constructor
  · exact fun h s hs => h tag s content List.mem_cons_self hs
  · rintro h key s v (_ | ⟨_, ⟨⟩⟩) hs
    exact h s hs

theorem levels_part {s t : Shape} {v w : Json} {n : Nat} (h : s.levels v ≤ n + 1)
    (part : Part s v t w) : t.levels w ≤ n := by
  cases part with
  | @slot r v _ slots i _ hv hs hw =>
    match v with
    | .obj ms =>
      obtain ⟨name, hname, hw⟩ := (slot_obj hv).mp hw
      exact levels_fields_le.mp h name t w hw (mem_fields_iff.mpr ⟨i, hname, hs⟩)
    | .arr items => exact levels_slots_le.mp h i t w hs ((slot_arr hv).mp hw)
  | item hw => exact levels_items_le.mp h w hw
  | part hs hw => exact levels_parts_le.mp h _ t w hs hw
  | content hs => exact levels_content_le.mp h t hs

section
variable {read read' : (s : Shape) → Json → Option s.Tree}

theorem levels_of_shallow? {s : Shape} {v : Json} {x : s.Tree} (h : s.shallow? v = some x) :
    s.levels v = 0 := by
  cases s <;> cases v <;> first | rfl | cases h

theorem deep?_of_shallow? {s : Shape} {v : Json} {x : s.Tree} (h : s.shallow? v = some x) :
    s.deep? read v = some x := by
  cases s <;> cases v <;> first | exact h | cases h

/-- The levels of a value that is read are those of its parts and one. -/
theorem levels_le_succ {s : Shape} {v : Json} {x : s.Tree} (h : s.deep? read v = some x) {n : Nat}
    (parts : ∀ t w, Part s v t w → t.levels w ≤ n) : s.levels v ≤ n + 1 := by
  cases s with
  | record r =>
    obtain ⟨slots, hv, -⟩ := Option.bind_eq_some_iff.mp h
    cases v with
    | obj ms =>
      refine levels_fields_le.mpr fun name t w hw known => ?_
      obtain ⟨i, hname, hs⟩ := mem_fields_iff.mp known
      exact parts t w (.slot hv hs ((slot_obj hv).mpr ⟨name, hname, hw⟩))
    | arr items =>
      exact levels_slots_le.mpr fun i t w hs hw => parts t w (.slot hv hs ((slot_arr hv).mpr hw))
    | null | bool | int | real | str => cases hv
  | list item =>
    cases v with
    | arr items => exact levels_items_le.mpr fun w hw => parts _ w (.item hw)
    | null | bool | int | real | str | obj => cases h
  | tuple t =>
    cases v with
    | arr items => exact levels_parts_le.mpr fun i u w hs hw => parts u w (.part hs hw)
    | null | bool | int | real | str | obj => cases h
  | choice c =>
    match v with
    | .obj [(some tag, content)] =>
      exact levels_content_le.mpr fun t hs => parts t content (.content hs)
    | .obj [] | .obj [(none, _)] | .obj ((none, _) :: _ :: _) | .obj ((some _, _) :: _ :: _) =>
      cases h
    | .null | .bool _ | .int _ | .real _ | .str _ | .arr _ => exact Nat.zero_le _
  | unit | line | name | superclass | literal => cases v <;> exact Nat.zero_le _

/-- A value that opens no level. -/
theorem deep?_eq_shallow? {s : Shape} {v : Json} (h : s.levels v = 0) :
    s.deep? read v = s.shallow? v := by
  have opens : ∀ n, 1 + n ≠ 0 := fun n => by omega
  cases s <;> cases v <;> first | rfl | exact absurd h (opens _)

theorem mapM_congr {α : Type} {f g : Json → Option α} {items : List Json}
    (h : ∀ v ∈ items, f v = g v) : items.mapM f = items.mapM g := by
  induction items with
  | nil => rfl
  | cons v items ih =>
    obtain ⟨hv, hitems⟩ := List.forall_mem_cons.mp h
    rw [List.mapM_cons, List.mapM_cons, hv, ih hitems]

theorem item_of_mapM {α : Type} {f : Json → Option α} {items : List Json} {xs : List α}
    (h : items.mapM f = some xs) : ∀ v ∈ items, ∃ x, f v = some x := by
  induction items generalizing xs with
  | nil => simp
  | cons v items ih =>
    rw [List.mapM_cons] at h
    obtain ⟨x, hx, h⟩ := Option.bind_eq_some_iff.mp h
    obtain ⟨ys, hys, -⟩ := Option.bind_eq_some_iff.mp h
    exact List.forall_mem_cons.mpr ⟨⟨x, hx⟩, ih hys⟩

/-- Only what is read from the parts matters. -/
theorem deep?_congr {s : Shape} {v : Json} (h : ∀ t w, Part s v t w → read t w = read' t w) :
    s.deep? read v = s.deep? read' v := by
  cases s with
  | record r =>
    refine Option.bind_congr fun slots hv => readSlots_congr r.make rfl ?_
    intro i s slot slot' hs hw hw'
    obtain rfl := Option.some.inj (hw.symm.trans hw')
    cases slot with
    | none => rfl
    | some w => exact h s w (.slot hv hs hw)
  | list item =>
    cases v with
    | arr items => exact mapM_congr fun w hw => h _ w (.item hw)
    | null | bool | int | real | str | obj => rfl
  | tuple t =>
    cases v with
    | arr items =>
      refine readSlots_congr t.make rfl fun i s slot slot' hs hw hw' => ?_
      obtain rfl := Option.some.inj (hw.symm.trans hw')
      rw [List.getElem?_map] at hw
      obtain ⟨w, item, rfl⟩ := Option.map_eq_some_iff.mp hw
      exact h s w (.part hs item)
    | null | bool | int | real | str | obj => rfl
  | choice c =>
    match v with
    | .obj [(some tag, content)] =>
      refine Option.bind_congr fun variant hv => congrArg (Option.map variant.make) ?_
      exact h _ content (.content (by rw [Choice.content?, hv]; rfl))
    | .obj [] | .obj [(none, _)] | .obj ((none, _) :: _ :: _) | .obj ((some _, _) :: _ :: _) => rfl
    | .null | .bool _ | .int _ | .real _ | .str _ | .arr _ => rfl
  | unit | line | name | superclass | literal => rfl

theorem part_of_deep? {s t : Shape} {v w : Json} {x : s.Tree} (h : s.deep? read v = some x)
    (part : Part s v t w) : ∃ y, read t w = some y := by
  cases part with
  | slot hv hs hw =>
    rw [Shape.deep?, hv] at h
    exact readSlot_of_readSlots h hs hw
  | item hw => exact item_of_mapM h w hw
  | @part t items w i s hs hw =>
    have slot : (items.map some)[i]? = some (some w) := by rw [List.getElem?_map, hw]; rfl
    exact readSlot_of_readSlots h hs slot
  | content hs =>
    obtain ⟨variant, hv, h⟩ := Option.bind_eq_some_iff.mp h
    obtain ⟨y, hy, -⟩ := Option.map_eq_some_iff.mp h
    rw [Choice.content?, hv] at hs
    obtain rfl := Option.some.inj hs
    exact ⟨y, hy⟩

end

theorem levels_le_of_read? {n : Nat} {s : Shape} {v : Json} {x : s.Tree}
    (h : s.read? n v = some x) : s.levels v ≤ n := by
  induction n generalizing s v x with
  | zero => exact Nat.le_of_eq (levels_of_shallow? h)
  | succ n ih =>
    refine levels_le_succ h fun t w part => ?_
    obtain ⟨y, hy⟩ := part_of_deep? h part
    exact ih hy

/-- With enough levels a value is read as the same tree. -/
theorem read?_of_levels {m n : Nat} {s : Shape} {v : Json} {x : s.Tree}
    (h : s.read? m v = some x) (levels : s.levels v ≤ n) : s.read? n v = some x := by
  induction m generalizing n s v x with
  | zero =>
    cases n with
    | zero => exact h
    | succ n => exact deep?_of_shallow? h
  | succ m ih =>
    cases n with
    | zero => exact (deep?_eq_shallow? (Nat.le_zero.mp levels)).symm.trans h
    | succ n =>
      refine (deep?_congr fun t w part => ?_).trans h
      obtain ⟨y, hy⟩ := part_of_deep? h part
      exact (ih hy (levels_part levels part)).trans hy.symm

end MiniJava.Document
