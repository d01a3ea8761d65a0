import Mathlib.Logic.Relation
import MiniJava.Proofs.Document.Levels

/-!
# Other spellings of a document

Rules that change the spelling of a value may be applied at any positions of a document, in both
directions and as often as one likes. What comes out is read alike with enough levels: one change is
read alike where it is made, and so is everything around it.
-/
namespace MiniJava.Document
open Json

/-- One change of the spelling of a value. -/
inductive Rewrites : Shape → Json → Json → Prop where
  | permuted {r : Record} {ms ms' : Members} (perm : ms.Perm ms') :
      Rewrites (.record r) (.obj ms) (.obj ms')
  | unknown {r : Record} {ms : Members} {key : String} {v : Json} (new : key ∉ r.names) :
      Rewrites (.record r) (.obj ms) (.obj ((some key, v) :: ms))
  | defaulted {r : Record} {ms : Members} {name : String} {s : Shape} {v : Json}
      (known : (name, s) ∈ r.fields) (absent : some name ∉ ms.keys) (hv : s.default? = some v) :
      Rewrites (.record r) (.obj ms) (.obj ((some name, v) :: ms))
  | keyed {r : Record} {items : List Json} (fits : items.length ≤ r.names.length) :
      Rewrites (.record r) (.arr items) (.obj (keyedItems r.names items))
  | plain {c : Choice} {tag : String} (known : c.content? tag = some .unit) :
      Rewrites (.choice c) (.str (some tag)) (.obj [(some tag, .null)])

/-- A change at one position inside a value. -/
inductive At (change : Shape → Json → Json → Prop) : Shape → Json → Json → Prop where
  | here {s : Shape} {v w : Json} (h : change s v w) : At change s v w
  | field {r : Record} {name : String} {s : Shape} {before behind : Members} {v w : Json}
      (known : (name, s) ∈ r.fields) (h : At change s v w) :
      At change (.record r) (.obj (before ++ (some name, v) :: behind))
        (.obj (before ++ (some name, w) :: behind))
  | slot {r : Record} {s : Shape} {before behind : List Json} {v w : Json}
      (known : r.shapes[before.length]? = some s) (h : At change s v w) :
      At change (.record r) (.arr (before ++ v :: behind)) (.arr (before ++ w :: behind))
  | item {item : Record} {before behind : List Json} {v w : Json}
      (h : At change (.record item) v w) :
      At change (.list item) (.arr (before ++ v :: behind)) (.arr (before ++ w :: behind))
  | part {t : Tuple} {s : Shape} {before behind : List Json} {v w : Json}
      (known : t.parts[before.length]? = some s) (h : At change s v w) :
      At change (.tuple t) (.arr (before ++ v :: behind)) (.arr (before ++ w :: behind))
  | content {c : Choice} {tag : String} {s : Shape} {v w : Json}
      (known : c.content? tag = some s) (h : At change s v w) :
      At change (.choice c) (.obj [(some tag, v)]) (.obj [(some tag, w)])

/-- Changes of spelling at any positions, there and back. -/
def Respelled (s : Shape) : Json → Json → Prop := Relation.EqvGen (At Rewrites s)

theorem Rewrites.respelled {s : Shape} {v w : Json} (h : Rewrites s v w) : Respelled s v w :=
  .rel v w (.here h)

/-- Around a respelled value. -/
theorem Respelled.inside {s t : Shape} {around : Json → Json}
    (position : ∀ v w, At Rewrites s v w → At Rewrites t (around v) (around w)) {v w : Json}
    (h : Respelled s v w) : Respelled t (around v) (around w) := by
  induction h with
  | rel v w h => exact .rel _ _ (position v w h)
  | refl v => exact .refl _
  | symm v w _ ih => exact .symm _ _ ih
  | trans u v w _ _ ih ih' => exact .trans _ _ _ ih ih'

theorem respelled_unknown {r : Record} {others : Members}
    (unknown : ∀ m ∈ others, ∃ key, key ∉ r.names ∧ m.1 = some key) (ms : Members) :
    Respelled (.record r) (.obj ms) (.obj (others ++ ms)) := by
  induction others with
  | nil => exact .refl _
  | cons m others ih =>
    obtain ⟨⟨key, new, hm⟩, rest⟩ := List.forall_mem_cons.mp unknown
    obtain ⟨_, v⟩ := m
    obtain rfl := hm
    exact .trans _ _ _ (ih rest) (Rewrites.unknown new).respelled

/-- An object that has all fields may be written as the array of their values. -/
theorem respelled_arr {r : Record} {ms : Members} {items : List Json}
    (h : record? r.names (.obj ms) = some (items.map some)) :
    Respelled (.record r) (.obj ms) (.arr items) := by
  by_cases keyed : Keyed r.names ms.keys
  · rw [record?_obj keyed] at h
    have fields := Option.some.inj h
    have fits : items.length ≤ r.names.length := by
      have := congrArg List.length fields
      simp at this
      omega
    obtain ⟨others, unknown, perm⟩ := perm_keyedItems (names_nodup r) keyed fields
    exact .trans _ _ _ (Rewrites.permuted perm).respelled
      (.trans _ _ _ (.symm _ _ (respelled_unknown unknown _))
        (.symm _ _ (Rewrites.keyed fits).respelled))
  · rw [record?_obj_none keyed] at h
    cases h

/-- An array may go on with what the next field stands for if it is left out. -/
theorem respelled_trailing {r : Record} {items : List Json} {s : Shape} {v : Json}
    (next : r.shapes[items.length]? = some s) (hv : s.default? = some v) :
    Respelled (.record r) (.arr items) (.arr (items ++ [v])) := by
  have place : items.length < r.names.length := by
    have := (List.getElem?_eq_some_iff.mp next).1
    simpa [Record.shapes, Record.names] using this
  have name := List.getElem?_eq_getElem place
  have known := mem_fields_iff.mpr ⟨_, name, next⟩
  have absent : some r.names[items.length] ∉ (keyedItems r.names items).keys := by
    rw [keys_keyedItems]
    intro earlier
    obtain ⟨name, taken, eq⟩ := List.mem_map.mp earlier
    obtain rfl := Option.some.inj eq
    obtain ⟨i, hi, same⟩ := List.mem_take_iff_getElem.mp taken
    have := (names_nodup r).getElem_inj_iff.mp same
    omega
  have longer : (items ++ [v]).length ≤ r.names.length := by
    rw [List.length_append]
    exact place
  have keyed := (Rewrites.keyed longer).respelled
  rw [keyedItems_concat name v] at keyed
  exact .trans _ _ _ (Rewrites.keyed (Nat.le_of_lt place)).respelled
    (.trans _ _ _ (Rewrites.defaulted known absent hv).respelled
      (.trans _ _ _ (Rewrites.permuted (List.perm_append_singleton _ _).symm).respelled
        (.symm _ _ keyed)))

/-- With enough levels the same tree is read, or none. -/
def ReadAlike (s : Shape) (v w : Json) : Prop := ∃ N, ∀ n ≥ N, s.read? n v = s.read? n w

theorem ReadAlike.refl (s : Shape) (v : Json) : ReadAlike s v v := ⟨0, fun _ _ => rfl⟩

theorem ReadAlike.symm {s : Shape} {v w : Json} (h : ReadAlike s v w) : ReadAlike s w v := by
  obtain ⟨N, h⟩ := h
  exact ⟨N, fun n hn => (h n hn).symm⟩

theorem ReadAlike.trans {s : Shape} {u v w : Json} (h : ReadAlike s u v) (h' : ReadAlike s v w) :
    ReadAlike s u w := by
  obtain ⟨N, h⟩ := h
  obtain ⟨M, h'⟩ := h'
  exact ⟨max N M, fun n hn => (h n (by omega)).trans (h' n (by omega))⟩

/-- Values that are read alike one level down. -/
theorem readAlike_of_deep? {s : Shape} {v w : Json} (N : Nat)
    (h : ∀ n ≥ N, s.deep? (Shape.read? n) v = s.deep? (Shape.read? n) w) : ReadAlike s v w := by
  refine ⟨N + 1, fun n hn => ?_⟩
  obtain ⟨k, rfl⟩ : ∃ k, n = k + 1 := ⟨n - 1, by omega⟩
  exact h k (by omega)

theorem readAlike_of_record? {r : Record} {v w : Json}
    (h : record? r.names v = record? r.names w) : ReadAlike (.record r) v w :=
  readAlike_of_deep? 0 fun n _ => by rw [Shape.deep?, Shape.deep?, h]

theorem deep?_obj {read : (s : Shape) → Json → Option s.Tree} {r : Record} {ms : Members}
    (h : Keyed r.names ms.keys) : (Shape.record r).deep? read (.obj ms) =
      readSlots read r.shapes r.make (r.names.map fun name => ms.lookup (some name)) := by
  rw [Shape.deep?, record?_obj h]
  rfl

theorem deep?_obj_none {read : (s : Shape) → Json → Option s.Tree} {r : Record} {ms : Members}
    (h : ¬ Keyed r.names ms.keys) : (Shape.record r).deep? read (.obj ms) = none := by
  rw [Shape.deep?, record?_obj_none h]
  rfl

/-- Objects whose fields are read alike. -/
theorem readAlike_obj {r : Record} {ms ms' : Members} (N : Nat)
    (keys : Keyed r.names ms.keys ↔ Keyed r.names ms'.keys)
    (same : Keyed r.names ms.keys → ∀ n ≥ N, ∀ name s, (name, s) ∈ r.fields →
      readSlot (Shape.read? n) s (ms.lookup (some name)) =
        readSlot (Shape.read? n) s (ms'.lookup (some name))) :
    ReadAlike (.record r) (.obj ms) (.obj ms') := by
  refine readAlike_of_deep? N fun n hn => ?_
  by_cases h : Keyed r.names ms.keys
  · rw [deep?_obj h, deep?_obj (keys.mp h)]
    refine readSlots_congr r.make (by simp) fun i s slot slot' hs hw hw' => ?_
    rw [List.getElem?_map] at hw hw'
    obtain ⟨name, hname, rfl⟩ := Option.map_eq_some_iff.mp hw
    rw [hname] at hw'
    obtain rfl := Option.some.inj hw'
    exact same h n hn name s (mem_fields_iff.mpr ⟨i, hname, hs⟩)
  · rw [deep?_obj_none h, deep?_obj_none (mt keys.mpr h)]

theorem read?_default {s : Shape} {v : Json} (h : s.default? = some v) (n : Nat) :
    s.read? (n + 1) v = s.absent? := by
  cases s <;> cases h <;> rfl

theorem readAlike_rewrites {s : Shape} {v w : Json} (h : Rewrites s v w) : ReadAlike s v w := by
  cases h with
  | permuted perm => exact readAlike_of_record? (record?_perm perm)
  | unknown new => exact readAlike_of_record? (record?_unknown _ new).symm
  | @defaulted r ms name s d known absent hd =>
    refine readAlike_obj 1 (keyed_cons fun _ => absent).symm fun _ n hn other t ht => ?_
    by_cases same : other = name
    · subst same
      obtain rfl := Option.some.inj ((lookup_fields.mpr ht).symm.trans (lookup_fields.mpr known))
      obtain ⟨k, rfl⟩ : ∃ k, n = k + 1 := ⟨n - 1, by omega⟩
      rw [lookup_none absent, List.lookup_cons_self]
      exact (read?_default hd k).symm
    · rw [lookup_cons_of_ne d fun eq => same (Option.some.inj eq)]
  | keyed fits => exact readAlike_of_record? (record?_keyedItems (names_nodup _) fits)
  | @plain c tag known =>
    refine readAlike_of_deep? 0 fun n _ => ?_
    obtain ⟨variant, hv, unit⟩ := Option.map_eq_some_iff.mp known
    obtain ⟨content, make⟩ := variant
    obtain rfl : content = .unit := unit
    have string : (Shape.choice c).deep? (Shape.read? n) (.str (some tag)) = some (make ()) := by
      change (c.variant? tag).bind Variant.plain? = _
      rw [hv]
      rfl
    have object : (Shape.choice c).deep? (Shape.read? n) (.obj [(some tag, .null)]) =
        some (make ()) := by
      change ((c.variant? tag).bind fun variant => _) = _
      rw [hv]
      cases n <;> rfl
    rw [string, object]

theorem keys_changed (before behind : Members) (key : Option String) (v w : Json) :
    Members.keys (before ++ (key, v) :: behind) = Members.keys (before ++ (key, w) :: behind) := by
  simp [Members.keys]

theorem readAlike_field {r : Record} {name : String} {s : Shape} {v w : Json}
    (known : (name, s) ∈ r.fields) (h : ReadAlike s v w) (before behind : Members) :
    ReadAlike (.record r) (.obj (before ++ (some name, v) :: behind))
      (.obj (before ++ (some name, w) :: behind)) := by
  obtain ⟨N, h⟩ := h
  have keys := keys_changed before behind (some name) v w
  refine readAlike_obj N (by rw [keys]) fun keyed n hn other t ht => ?_
  by_cases same : other = name
  · subst same
    obtain rfl := Option.some.inj ((lookup_fields.mpr ht).symm.trans (lookup_fields.mpr known))
    have first : some other ∉ before.keys :=
      not_mem_keys_of_once (keyed.once other (List.mem_map_of_mem known))
    rw [lookup_append_cons first, lookup_append_cons first]
    exact h n hn
  · have other : some other ≠ some name := fun eq => same (Option.some.inj eq)
    rw [lookup_append_cons_of_ne v other, lookup_append_cons_of_ne w other]

theorem readSlots_changed {β : Type} {read : (s : Shape) → Json → Option s.Tree} {ss : List Shape}
    {before : List (Option Json)} {s : Shape} {slot slot' : Option Json}
    (known : ss[before.length]? = some s) (same : readSlot read s slot = readSlot read s slot')
    (behind : List (Option Json)) (make : Takes β ss) :
    readSlots read ss make (before ++ slot :: behind) =
      readSlots read ss make (before ++ slot' :: behind) := by
  induction before generalizing ss with
  | nil =>
    cases ss with
    | nil => rfl
    | cons t ss =>
      obtain rfl := Option.some.inj known
      rw [List.nil_append, List.nil_append, readSlots, readSlots, same]
  | cons u before ih =>
    cases ss with
    | nil => rfl
    | cons t ss =>
      rw [List.cons_append, List.cons_append, readSlots, readSlots]
      exact congrArg _ (funext fun x => ih known (make x))

theorem readAlike_slot {r : Record} {s : Shape} {before : List Json} {v w : Json}
    (known : r.shapes[before.length]? = some s) (h : ReadAlike s v w) (behind : List Json) :
    ReadAlike (.record r) (.arr (before ++ v :: behind)) (.arr (before ++ w :: behind)) := by
  obtain ⟨N, h⟩ := h
  refine readAlike_of_deep? N fun n hn => ?_
  have slots : readSlot (Shape.read? n) s (some v) = readSlot (Shape.read? n) s (some w) := h n hn
  rw [Shape.deep?, Shape.deep?, record?, record?]
  have length : (before ++ w :: behind).length = (before ++ v :: behind).length := by simp
  rw [length]
  split
  · rw [List.map_append, List.map_append, List.append_assoc, List.append_assoc]
    exact readSlots_changed (by simpa using known) slots _ r.make
  · rfl

theorem readAlike_item {item : Record} {v w : Json} (h : ReadAlike (.record item) v w)
    (before behind : List Json) :
    ReadAlike (.list item) (.arr (before ++ v :: behind)) (.arr (before ++ w :: behind)) := by
  obtain ⟨N, h⟩ := h
  refine readAlike_of_deep? N fun n hn => ?_
  change List.mapM _ _ = List.mapM _ _
  rw [List.mapM_append, List.mapM_append, List.mapM_cons, List.mapM_cons, h n hn]

theorem readAlike_part {t : Tuple} {s : Shape} {before : List Json} {v w : Json}
    (known : t.parts[before.length]? = some s) (h : ReadAlike s v w) (behind : List Json) :
    ReadAlike (.tuple t) (.arr (before ++ v :: behind)) (.arr (before ++ w :: behind)) := by
  obtain ⟨N, h⟩ := h
  refine readAlike_of_deep? N fun n hn => ?_
  have slots : readSlot (Shape.read? n) s (some v) = readSlot (Shape.read? n) s (some w) := h n hn
  rw [Shape.deep?, Shape.deep?, List.map_append, List.map_append]
  exact readSlots_changed (by simpa using known) slots _ t.make

theorem readAlike_content {c : Choice} {tag : String} {s : Shape} {v w : Json}
    (known : c.content? tag = some s) (h : ReadAlike s v w) :
    ReadAlike (.choice c) (.obj [(some tag, v)]) (.obj [(some tag, w)]) := by
  obtain ⟨N, h⟩ := h
  refine readAlike_of_deep? N fun n hn => ?_
  refine Option.bind_congr fun variant hv => congrArg (Option.map variant.make) ?_
  rw [Choice.content?, hv] at known
  obtain rfl := Option.some.inj known
  exact h n hn

theorem readAlike_at {s : Shape} {v w : Json} (h : At Rewrites s v w) : ReadAlike s v w := by
  induction h with
  | here h => exact readAlike_rewrites h
  | field known _ ih => exact readAlike_field known ih _ _
  | slot known _ ih => exact readAlike_slot known ih _
  | item _ ih => exact readAlike_item ih _ _
  | part known _ ih => exact readAlike_part known ih _
  | content known _ ih => exact readAlike_content known ih

theorem readAlike_of_respelled {s : Shape} {v w : Json} (h : Respelled s v w) :
    ReadAlike s v w := by
  induction h with
  | rel v w h => exact readAlike_at h
  | refl v => exact .refl s v
  | symm v w _ ih => exact ih.symm
  | trans u v w _ _ ih ih' => exact ih.trans ih'

/-- What a value is read as, every respelled value is read as that keeps to the levels. -/
theorem read?_respelled {s : Shape} {v w : Json} (h : Respelled s v w) {m : Nat} {x : s.Tree}
    (hx : s.read? m v = some x) (n : Nat) : s.read? n w = some x ↔ s.levels w ≤ n := by
  obtain ⟨N, alike⟩ := readAlike_of_respelled h
  have deeper : s.read? (max N m) v = some x :=
    read?_of_levels hx (Nat.le_trans (levels_le_of_read? hx) (Nat.le_max_right ..))
  have respelled : s.read? (max N m) w = some x := alike _ (Nat.le_max_left ..) ▸ deeper
  exact ⟨levels_le_of_read?, read?_of_levels respelled⟩

/-- One mistake in a value. -/
inductive Spoils : Shape → Json → Json → Prop where
  | repeated {r : Record} {before behind : Members} {name : String} {v : Json}
      (known : name ∈ r.names) (present : some name ∈ (before ++ behind).keys) :
      Spoils (.record r) (.obj (before ++ behind)) (.obj (before ++ (some name, v) :: behind))
  | dropped {r : Record} {before behind : Members} {name : String} {s : Shape} {v : Json}
      (known : (name, s) ∈ r.fields) (required : s.default? = none)
      (only : some name ∉ (before ++ behind).keys) :
      Spoils (.record r) (.obj (before ++ (some name, v) :: behind)) (.obj (before ++ behind))
  | slotBeyond {r : Record} {items : List Json} {v : Json} (full : r.names.length ≤ items.length) :
      Spoils (.record r) (.arr items) (.arr (items ++ [v]))
  | partBeyond {t : Tuple} {items : List Json} {v : Json} (full : t.parts.length ≤ items.length) :
      Spoils (.tuple t) (.arr items) (.arr (items ++ [v]))
  | secondBehind {c : Choice} {m m' : Option String × Json} :
      Spoils (.choice c) (.obj [m]) (.obj [m, m'])
  | secondBefore {c : Choice} {m m' : Option String × Json} :
      Spoils (.choice c) (.obj [m]) (.obj [m', m])

/-- Not read with any number of levels. -/
def Unread (s : Shape) (v : Json) : Prop := ∀ n, s.read? n v = none

theorem unread_of_deep? {s : Shape} {v : Json} (h : ∀ n, s.deep? (Shape.read? n) v = none) :
    Unread s v := by
  intro n
  cases n with
  | zero =>
    refine Option.eq_none_iff_forall_ne_some.mpr fun x shallow => ?_
    have read := h 0
    rw [deep?_of_shallow? shallow] at read
    cases read
  | succ n => exact h n

theorem absent?_of_default? {s : Shape} (h : s.default? = none) : s.absent? = none := by
  cases s <;> first | rfl | cases h

/-- An object with a field that is not read. -/
theorem unread_obj {r : Record} {ms : Members} {name : String} {s : Shape}
    (known : (name, s) ∈ r.fields)
    (h : Keyed r.names ms.keys → ∀ n, readSlot (Shape.read? n) s (ms.lookup (some name)) = none) :
    Unread (.record r) (.obj ms) := by
  refine unread_of_deep? fun n => ?_
  by_cases keyed : Keyed r.names ms.keys
  · obtain ⟨i, hname, hs⟩ := mem_fields_iff.mp known
    rw [deep?_obj keyed]
    exact readSlots_eq_none i hs (by rw [List.getElem?_map, hname]; rfl) (h keyed n) r.make
  · exact deep?_obj_none keyed

theorem unread_spoils {s : Shape} {v w : Json} (h : Spoils s v w) : Unread s w := by
  cases h with
  | @repeated r before behind name v known present =>
    refine unread_of_deep? fun n => deep?_obj_none fun keyed => ?_
    have once := keyed.once name known
    have there : 0 < (before ++ behind : Members).keys.count (some name) :=
      List.count_pos_iff.mpr present
    simp only [Members.keys, List.map_append, List.map_cons, List.count_append,
      List.count_cons_self] at once there
    omega
  | dropped known required only =>
    refine unread_obj known fun _ n => ?_
    rw [lookup_none only]
    exact absent?_of_default? required
  | slotBeyond full =>
    refine unread_of_deep? fun n => ?_
    rw [Shape.deep?, record?, if_neg (by simp; omega)]
    rfl
  | partBeyond full =>
    exact unread_of_deep? fun n => readSlots_none (by simp; omega) _
  | @secondBehind c m m' =>
    obtain ⟨_ | tag, v⟩ := m <;> exact unread_of_deep? fun n => rfl
  | @secondBefore c m m' =>
    obtain ⟨_ | tag, v⟩ := m' <;> exact unread_of_deep? fun n => rfl

theorem unread_field {r : Record} {name : String} {s : Shape} {w : Json}
    (known : (name, s) ∈ r.fields) (h : Unread s w) (before behind : Members) :
    Unread (.record r) (.obj (before ++ (some name, w) :: behind)) := by
  refine unread_obj known fun keyed n => ?_
  have first : some name ∉ before.keys :=
    not_mem_keys_of_once (keyed.once name (List.mem_map_of_mem known))
  rw [lookup_append_cons first]
  exact h n

theorem unread_slot {r : Record} {s : Shape} {before : List Json} {w : Json}
    (known : r.shapes[before.length]? = some s) (h : Unread s w) (behind : List Json) :
    Unread (.record r) (.arr (before ++ w :: behind)) := by
  refine unread_of_deep? fun n => ?_
  rw [Shape.deep?, record?]
  split
  · have slot : (List.map some (before ++ w :: behind) ++ List.replicate (r.names.length -
        (before ++ w :: behind).length) none)[before.length]? = some (some w) := by simp
    exact readSlots_eq_none before.length known slot (h n) r.make
  · rfl

theorem unread_item {item : Record} {w : Json} (h : Unread (.record item) w)
    (before behind : List Json) : Unread (.list item) (.arr (before ++ w :: behind)) := by
  refine unread_of_deep? fun n => ?_
  change List.mapM _ _ = none
  refine Option.eq_none_iff_forall_ne_some.mpr fun xs read => ?_
  obtain ⟨x, hx⟩ := item_of_mapM read w (by simp)
  rw [h n] at hx
  cases hx

theorem unread_part {t : Tuple} {s : Shape} {before : List Json} {w : Json}
    (known : t.parts[before.length]? = some s) (h : Unread s w) (behind : List Json) :
    Unread (.tuple t) (.arr (before ++ w :: behind)) := by
  refine unread_of_deep? fun n => ?_
  have slot : (List.map some (before ++ w :: behind))[before.length]? = some (some w) := by simp
  exact readSlots_eq_none before.length known slot (h n) t.make

theorem unread_content {c : Choice} {tag : String} {s : Shape} {w : Json}
    (known : c.content? tag = some s) (h : Unread s w) :
    Unread (.choice c) (.obj [(some tag, w)]) := by
  refine unread_of_deep? fun n => ?_
  obtain ⟨variant, hv, rfl⟩ := Option.map_eq_some_iff.mp known
  change ((c.variant? tag).bind fun variant => _) = none
  rw [hv]
  exact congrArg (Option.map variant.make) (h n)

/-- A mistake anywhere makes a document unreadable. -/
theorem unread_at {s : Shape} {v w : Json} (h : At Spoils s v w) : Unread s w := by
  induction h with
  | here h => exact unread_spoils h
  | field known _ ih => exact unread_field known ih _ _
  | slot known _ ih => exact unread_slot known ih _
  | item _ ih => exact unread_item ih _ _
  | part known _ ih => exact unread_part known ih _
  | content known _ ih => exact unread_content known ih

end MiniJava.Document
