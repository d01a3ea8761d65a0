import Mathlib.Data.List.Chain
import Mathlib.Logic.Relation
import MiniJava.Layout.Assign
import MiniJava.Proofs.Declared.Declarations
import MiniJava.Proofs.Layout.Repeated
import MiniJava.Proofs.Typing.Lookup

/-!
# The classes are a forest, whatever was done to the table

A class table is built by adding classes below earlier ones, and then given members, lists of what is
inherited, and layouts. Only adding a class touches names and parents, and it appends a class whose
name is new, together with the entry for its name. So in every table that is reached the names and the
classes agree and every parent stands before its children: the walk along the parents ends, and
assignability is a partial order. The tables of programs are among them.
-/
namespace MiniJava.ClassTable

inductive Change where
  | addClass (k : Class)
  | addField (c : ClassId) (f : Field)
  | addMethod (c : ClassId) (m : Method)
  | setInherited (c : ClassId) (inherited : List Inherited)
  | layOut (s : Layout.Strategy)

/-- What becomes of a table. -/
def Change.apply (t : ClassTable) : Change → ClassTable
  | addClass k => (t.add k).2
  | addField c f => t.addField c f
  | addMethod c m => t.addMethod c m
  | setInherited c inherited => t.setInherited c inherited
  | layOut s => Layout.assign s t

/-- The parent of a new class, if it has one, is registered already. -/
def Change.Allowed (t : ClassTable) : Change → Prop
  | addClass k => ∀ p ∈ k.parent, p < t.size
  | _ => True

instance (t : ClassTable) : (a : Change) → Decidable (a.Allowed t)
  | .addClass k => inferInstanceAs (Decidable (∀ p ∈ k.parent, p < t.size))
  | .addField _ _ | .addMethod _ _ | .setInherited _ _ | .layOut _ =>
    inferInstanceAs (Decidable True)

/-- The tables that come from the empty one by changes. -/
inductive Reached : ClassTable → Prop
  | empty : Reached .empty
  | change {t : ClassTable} {a : Change} : Reached t → a.Allowed t → Reached (a.apply t)

variable {t u : ClassTable}

/-- Names and classes agree, and parents stand before their children. -/
structure Ordered (t : ClassTable) : Prop where
  indexed : t.Indexed
  forest : t.Forest

theorem parent?_modify (t : ClassTable) (c : ClassId) {f : Class → Class}
    (kept : ∀ k, (f k).parent = k.parent) (d : ClassId) :
    (t.modify c f).parent? d = t.parent? d := by
  rw [parent?, parent?, get?_modify]
  cases t.get? d with
  | none => rfl
  | some k =>
    by_cases here : c = d
    · simp [here, kept]
    · simp [here]

namespace Ordered

theorem empty : Ordered .empty where
  indexed := indexed_empty
  forest := nofun

theorem congr (h : t.Ordered) (find : ∀ n, u.find? n = t.find? n) (names : u.names = t.names)
    (parents : ∀ c, u.parent? c = t.parent? c) : u.Ordered where
  indexed := h.indexed.congr find names
  forest := fun hp => h.forest ((parents _).symm.trans hp)

theorem add (h : t.Ordered) {k : Class} (earlier : ∀ p, k.parent = some p → p < t.size) :
    (t.add k).2.Ordered where
  indexed := h.indexed.add k
  forest := by
    cases known : t.find? k.name with
    | none =>
      rw [add_of_new known]
      exact forest_push h.forest earlier
    | some c =>
      rw [add_of_known known]
      exact h.forest

/-- A change that keeps the name and the parent of every class. -/
theorem modify (h : t.Ordered) (c : ClassId) {f : Class → Class}
    (name : ∀ k, (f k).name = k.name) (parent : ∀ k, (f k).parent = k.parent) :
    (t.modify c f).Ordered :=
  h.congr (fun _ => rfl) (names_modify t c name) (parent?_modify t c parent)

theorem layOut (h : t.Ordered) (s : Layout.Strategy) : (Layout.assign s t).Ordered :=
  have same := Layout.sameOutline_of_unplaced (Layout.unplaced_assign s t)
  h.congr same.find? same.names same.parent?

/-- One change keeps the order. -/
theorem change (h : t.Ordered) {a : Change} (allowed : a.Allowed t) : (a.apply t).Ordered := by
  cases a with
  | addClass k => exact h.add allowed
  | addField c f => exact h.modify c (fun _ => rfl) fun _ => rfl
  | addMethod c m => exact h.modify c (fun _ => rfl) fun _ => rfl
  | setInherited c inherited => exact h.modify c (fun _ => rfl) fun _ => rfl
  | layOut s => exact h.layOut s

end Ordered

theorem Reached.ordered (h : Reached t) : t.Ordered := by
  induction h with
  | empty => exact .empty
  | change _ allowed ih => exact ih.change allowed

/-- `p` is the parent of `c`. -/
def Parent (t : ClassTable) (c p : ClassId) : Prop := t.parent? c = some p

theorem Forest.isChain_chain (forest : t.Forest) (c : ClassId) :
    (t.chain c).IsChain t.Parent := by
  induction c using forest.induction with
  | top c hc =>
    rw [chain_of_top hc]
    exact .singleton c
  | child c p hp ih =>
    rw [forest.chain_of_parent hp, chain]
    exact .cons_cons hp ih

theorem Forest.chain_decreases (forest : t.Forest) (c : ClassId) :
    (t.chain c).Pairwise (· > ·) := by
  induction c using forest.induction with
  | top c hc =>
    rw [chain_of_top hc]
    exact List.pairwise_singleton _ c
  | child c p hp ih =>
    rw [forest.chain_of_parent hp]
    exact .cons (fun a ha => Nat.lt_of_le_of_lt (forest.le_of_mem_chain ha) (forest hp)) ih

theorem Forest.getLast?_chain (forest : t.Forest) (c : ClassId) :
    (t.chain c).getLast? = some (t.root c) := by
  induction c using forest.induction with
  | top c hc =>
    rw [chain_of_top hc, root_of_top hc]
    rfl
  | child c p hp ih =>
    rw [forest.chain_of_parent hp, forest.root_of_parent hp, ← ih, chain, List.getLast?_cons_cons]

theorem Forest.root_is_top (forest : t.Forest) (c : ClassId) : t.parent? (t.root c) = none := by
  induction c using forest.induction with
  | top c hc => rw [root_of_top hc, hc]
  | child c p hp ih => rw [forest.root_of_parent hp, ih]

theorem descends_iff_reflTransGen {c a : ClassId} :
    t.Descends c a ↔ Relation.ReflTransGen t.Parent c a := by
  constructor
  · intro h
    induction h with
    | self c => exact .refl
    | up hp _ ih => exact .head hp ih
  · intro h
    induction h using Relation.ReflTransGen.head_induction_on with
    | refl => exact .self a
    | head hp _ ih => exact .up hp ih

theorem Indexed.eq_of_find?_eq (h : t.Indexed) {m n : Name} {c : ClassId} (hm : t.find? m = some c)
    (hn : t.find? n = some c) : m = n := by
  obtain ⟨k, hk, rfl⟩ := h.find?_eq_some_iff.mp hm
  obtain ⟨l, hl, rfl⟩ := h.find?_eq_some_iff.mp hn
  rw [Option.some.inj (hk.symm.trans hl)]

theorem assignable_trans {a b c : Ty} (hab : Typing.Assignable t a b)
    (hbc : Typing.Assignable t b c) : Typing.Assignable t a c := by
  cases hab with
  | same => exact hbc
  | widen ha hb first =>
    cases hbc with
    | same => exact .widen ha hb first
    | widen hb' hc second =>
      obtain rfl := Option.some.inj (hb.symm.trans hb')
      exact .widen ha hc (second.trans first)

theorem Ordered.assignable_antisymm (h : t.Ordered) {a b : Ty} (hab : Typing.Assignable t a b)
    (hba : Typing.Assignable t b a) : a = b := by
  cases hab with
  | same => rfl
  | widen ha hb down =>
    cases hba with
    | same => rfl
    | widen hb' ha' up =>
      obtain rfl := Option.some.inj (ha.symm.trans ha')
      obtain rfl := Option.some.inj (hb.symm.trans hb')
      have forest : t.Forest := h.forest
      obtain rfl := Nat.le_antisymm (forest.descends_le down) (forest.descends_le up)
      rw [h.indexed.eq_of_find?_eq ha hb]

/-- In every table that is reached from the empty one, a class is refused exactly if its name is known,
and leaves the table as it is; names stand for the classes that have them, and for nothing else; chains
follow the parents down to the root, through smaller and smaller numbers; subclasses are those from which
the parents lead to the class; and assignability is a partial order of all types, those of unknown
classes among them. -/
theorem reached_partial_order {t : ClassTable} (h : Reached t) :
    (∀ k, ((t.add k).1 = none ↔ k.name ∈ t.names) ∧ ((t.add k).1 = none → (t.add k).2 = t)) ∧
    (∀ n c, t.find? n = some c ↔ ∃ k, t.get? c = some k ∧ k.name = n) ∧
    (∀ c, (t.chain c).head? = some c ∧ (t.chain c).IsChain t.Parent ∧
      (t.chain c).Pairwise (· > ·) ∧ (t.chain c).getLast? = some (t.root c) ∧
      t.parent? (t.root c) = none) ∧
    (∀ sub sup, t.isSubclass sub sup = true ↔ Relation.ReflTransGen t.Parent sub sup) ∧
    (∀ a, t.assignable a a = true) ∧
    (∀ a b, t.assignable a b = true → t.assignable b a = true → a = b) ∧
    ∀ a b c, t.assignable a b = true → t.assignable b c = true → t.assignable a c = true := by
  have ordered := h.ordered
  have indexed := ordered.indexed
  have forest : t.Forest := ordered.forest
  simp only [Typing.assignable_iff forest, Typing.isSubclass_iff forest]
  refine ⟨fun k => ?_, fun _ _ => indexed.find?_eq_some_iff, fun c => ?_,
    fun _ _ => descends_iff_reflTransGen, .same, fun _ _ => ordered.assignable_antisymm,
    fun _ _ _ => assignable_trans⟩
  · cases known : t.find? k.name with
    | none =>
      rw [add_of_new known]
      exact ⟨iff_of_false nofun (indexed.find?_eq_none_iff.mp known), nofun⟩
    | some c =>
      have taken : k.name ∈ t.names := indexed.find?_isSome_iff.mp (by rw [known]; rfl)
      rw [add_of_known known]
      exact ⟨iff_of_true rfl taken, fun _ => rfl⟩
  · exact ⟨rfl, forest.isChain_chain c, forest.chain_decreases c, forest.getLast?_chain c,
      forest.root_is_top c⟩

/-- `Circle` below `Shape` gets a field and a method and is laid out; a second `Circle` is refused. -/
def drawing : List Change :=
  [.addClass ⟨"Shape", 1, none, [], [], [], none⟩,
    .addClass ⟨"Circle", 2, some 0, [], [], [], none⟩,
    .addClass ⟨"Circle", 3, none, [], [], [], none⟩,
    .addField 1 ⟨"radius", .int, 4, none, false⟩,
    .addMethod 1 ⟨"area", 5, 1, .int, 0, [], none⟩,
    .setInherited 1 [],
    .layOut .parentPrefix]

def shapes : ClassTable := drawing.foldl Change.apply .empty

theorem reached_shapes : Reached shapes := by
  rw [shapes, drawing]
  simp only [List.foldl_cons, List.foldl_nil]
  iterate 7
    refine .change ?_ (by decide +kernel)
  exact .empty

theorem reached_partial_order_shapes :
    Reached shapes ∧ (shapes.add ⟨"Circle", 8, none, [], [], [], none⟩).2 = shapes ∧
      shapes.find? "Circle" = some 1 ∧ shapes.isSubclass 1 0 = true ∧
      shapes.assignable (.object "Shape") (.object "Circle") = true ∧
      shapes.assignable (.object "Circle") (.object "Shape") = false ∧
      shapes.assignable (.object "Square") (.object "Square") = true := by
  obtain ⟨refused, names, _, subclass, refl, antisymm, _⟩ := reached_partial_order reached_shapes
  have circle : (shapes.get? 1).map (·.name) = some "Circle" := by decide +kernel
  have parent : shapes.parent? 1 = some 0 := by decide +kernel
  have wider : shapes.assignable (.object "Shape") (.object "Circle") = true := by decide +kernel
  obtain ⟨k, hk, name⟩ := Option.map_eq_some_iff.mp circle
  refine ⟨reached_shapes, (refused _).2 (by decide +kernel), (names "Circle" 1).mpr ⟨k, hk, name⟩,
    (subclass 1 0).mpr (.single parent), wider, ?_, refl _⟩
  cases narrower : shapes.assignable (.object "Circle") (.object "Shape") with
  | false => rfl
  | true => exact absurd (antisymm _ _ wider narrower) (by decide)

def setAll (inherited : ClassId → List Inherited) (t : ClassTable) (cs : List ClassId) : ClassTable :=
  cs.foldl (fun u c => u.setInherited c (inherited c)) t

/-- The lists of inherited methods are set one after the other. -/
theorem withInherited_eq_setAll (t : ClassTable) :
    Check.withInherited t = setAll (Check.inheritedOf t) t t.ids := by
  have set : ∀ n, (setAll (Check.inheritedOf t) t (List.range n)).byName = t.byName ∧
      (setAll (Check.inheritedOf t) t (List.range n)).size = t.size ∧
      ∀ c, (setAll (Check.inheritedOf t) t (List.range n)).get? c = (t.get? c).map fun k =>
        if c < n then { k with inherited := Check.inheritedOf t c } else k := by
    intro n
    induction n with
    | zero => exact ⟨rfl, rfl, fun c => (congrFun Option.map_id (t.get? c)).symm⟩
    | succ n ih =>
      obtain ⟨names, size, classes⟩ := ih
      rw [setAll, List.range_succ, List.foldl_append]
      refine ⟨names, Array.size_modify.trans size, fun c => ?_⟩
      rw [List.foldl_cons, List.foldl_nil, setInherited, get?_modify]
      rw [setAll] at classes
      rw [classes, Option.map_map]
      refine Option.map_congr fun k _ => ?_
      by_cases last : n = c
      · simp [last]
      · have same : c < n + 1 ↔ c < n :=
          Nat.lt_succ_iff.trans ⟨fun le => Nat.lt_of_le_of_ne le (Ne.symm last), Nat.le_of_lt⟩
        simp [last, same]
  obtain ⟨names, size, classes⟩ := set t.size
  refine eq_of_get? names.symm (Array.size_mapIdx.trans size.symm) fun c _ => ?_
  rw [ids, classes, Check.get?_withInherited]
  refine Option.map_congr fun k hk => ?_
  rw [if_pos (lt_size_of_get? hk)]

theorem Reached.setAll (h : Reached t) (inherited : ClassId → List Inherited) (cs : List ClassId) :
    Reached (setAll inherited t cs) := by
  induction cs generalizing t with
  | nil => exact h
  | cons c cs ih => exact ih (.change (a := .setInherited c (inherited c)) h trivial)

theorem Reached.enter (h : Reached t) (d : ClassDecl .bare) :
    Reached (Check.enter t d).value.1 := by
  cases known : t.find? d.name with
  | none =>
    have added := add_of_new (k := Check.newClass t d) known
    have next := Reached.change (a := .addClass (Check.newClass t d)) h fun p hp =>
      (Check.parentOf_eq_some h.ordered.indexed hp).1
    rw [Change.apply, added] at next
    rw [Check.enter_new known]
    exact next
  | some c =>
    rw [Check.enter, known]
    exact h

theorem Reached.enterAll (h : Reached t) (r : Report) (ds : List (ClassDecl .bare)) :
    Reached (Check.enterAll t r ds).1 := by
  induction ds generalizing t r with
  | nil => exact h
  | cons d ds ih =>
    rw [Check.enterAll]
    split
    · exact h
    · exact ih (h.enter d) _

/-- The class table of any program is reached. -/
theorem reached_hierarchy (limit : Option Nat) (p : Program .bare) :
    Reached (Check.hierarchy limit p).table := by
  have main : Reached (Check.mainOnly p.main) := .change (a := .addClass _) .empty nofun
  have entered := main.enterAll { limit } p.classes
  change Reached (Check.withInherited _)
  rw [withInherited_eq_setAll]
  exact entered.setAll _ _

end MiniJava.ClassTable
