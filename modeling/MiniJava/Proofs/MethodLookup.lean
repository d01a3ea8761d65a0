import Mathlib.Data.List.Induction
import MiniJava.Proofs.Inheritance

/-!
# Method lookup and the lists of inherited methods

Lookup climbs from a class and takes the first declaration, while the list of inherited methods is
built from the topmost ancestor down and overwrites in place. In the table of any program, accepted
or not, both lead to the same methods, and the list is in the order in which the names turn up on
the way down.
-/
namespace MiniJava

namespace ClassTable

/-- What a class takes over from its ancestors, as lookup along its chain sees it. -/
structure Inherits (t : ClassTable) (c : ClassId) (entries : List Inherited) : Prop where
  own : ∀ {i m}, t.method? ⟨c, i⟩ = some m → t.findMethod? c m.name = some ⟨c, i⟩
  listed : ∀ e ∈ entries, t.findMethod? c e.name = some e.method
  unseen : ∀ n, n ∉ (t.methods c).map (·.name) → n ∉ entries.map (·.name) →
    t.findMethod? c n = none
  distinct : (entries.map (·.name)).Nodup
  foreign : ∀ e ∈ entries, e.name ∉ (t.methods c).map (·.name)
  /-- An entry is the method of its name in the nearest ancestor that declares one. -/
  nearest : ∀ e ∈ entries,
    (∃ m, t.method? e.method = some m ∧ m.name = e.name) ∧
      ∃ nearer above, t.ancestors c = nearer ++ e.method.cls :: above ∧
        ∀ a ∈ nearer, e.name ∉ (t.methods a).map (·.name)
  /-- The names as they are met from the topmost ancestor down, each at its first appearance. -/
  order : entries.map (·.name) =
    (((t.ancestors c).reverse.flatMap fun a => (t.methods a).map (·.name)).filter fun n =>
      n ∉ (t.methods c).map (·.name)).eraseDups

theorem ownMethod?_eq_none_iff {t : ClassTable} {c : ClassId} {n : Name} :
    t.ownMethod? c n = none ↔ n ∉ (t.methods c).map (·.name) := by
  simp [ownMethod?, List.findIdx?_eq_none_iff]

end ClassTable

namespace Check

open ClassTable

/-- A name goes to the end unless it is there already. -/
def joinName (names : List Name) (n : Name) : List Name := if n ∈ names then names else names ++ [n]

theorem foldl_joinName (ns : List Name) : ns.foldl joinName [] = ns.eraseDups := by
  induction ns using List.reverseRecOn with
  | nil => rfl
  | append_singleton ns n ih =>
    rw [List.foldl_append, ih, List.eraseDups_append, List.foldl_cons, List.foldl_nil, joinName]
    by_cases known : n ∈ ns
    · rw [if_pos (List.mem_eraseDups.mpr known)]
      simp [List.removeAll, known]
    · rw [if_neg (fun h => known (List.mem_eraseDups.mp h))]
      simp [List.removeAll, known, List.eraseDups_cons]

/-- An entry that takes the place of an earlier one stands where that stood. -/
theorem names_place (e : Inherited) (kept : List Inherited) :
    (place e kept).map (·.name) = joinName (kept.map (·.name)) e.name := by
  induction kept with
  | nil => rfl
  | cons k ks ih =>
    rw [place]
    split
    · rename_i same
      rw [joinName, if_pos (by simp [same]), List.map_cons, List.map_cons, same]
    · rename_i other
      have new : e.name ≠ k.name := fun h => other h.symm
      rw [List.map_cons, ih, List.map_cons, joinName, joinName]
      by_cases known : e.name ∈ ks.map (·.name)
      · rw [if_pos known, if_pos (List.mem_cons_of_mem _ known)]
      · rw [if_neg known, if_neg (by simpa [new] using known), List.cons_append]

section Order
variable {t : ClassTable} {c : ClassId}

/-- The names that an ancestor hands down to a class, which are those it does not declare. -/
def handedDown (t : ClassTable) (c : ClassId) (names : List Name) : List Name :=
  names.filter fun n => n ∉ (t.methods c).map (·.name)

theorem names_foldl_inheritOne (a : ClassId) (xs : List (Method × Nat)) :
    ∀ kept, (xs.foldl (inheritOne t c a) kept).map (·.name) =
      (handedDown t c (xs.map fun x => x.1.name)).foldl joinName (kept.map (·.name)) := by
  induction xs with
  | nil => exact fun _ => rfl
  | cons x xs ih =>
    intro kept
    rw [List.foldl_cons, ih, List.map_cons, inheritOne, handedDown, handedDown]
    cases own : t.ownMethod? c x.1.name with
    | none =>
      have new := ownMethod?_eq_none_iff.mp own
      rw [List.filter_cons_of_pos (by simpa using new), List.foldl_cons]
      exact congrArg (List.foldl joinName · _) (names_place ⟨x.1.name, ⟨a, x.2⟩⟩ kept)
    | some i =>
      have known : x.1.name ∈ (t.methods c).map (·.name) := by
        by_contra new
        rw [ownMethod?_eq_none_iff.mpr new] at own
        cases own
      rw [List.filter_cons_of_neg (by simpa using known)]
      rfl

theorem names_inheritFrom (a : ClassId) (kept : List Inherited) :
    (inheritFrom t c a kept).map (·.name) =
      (handedDown t c ((t.methods a).map (·.name))).foldl joinName (kept.map (·.name)) := by
  have names : ((t.methods a).zipIdx.map fun x => x.1.name) = (t.methods a).map (·.name) :=
    List.map_map.symm.trans (congrArg _ (List.zipIdx_map_fst 0 (t.methods a)))
  rw [inheritFrom_eq, names_foldl_inheritOne, names]

theorem names_foldl_inheritFrom (as : List ClassId) :
    ∀ kept, (as.foldl (fun kept a => inheritFrom t c a kept) kept).map (·.name) =
      (handedDown t c (as.flatMap fun a => (t.methods a).map (·.name))).foldl joinName
        (kept.map (·.name)) := by
  induction as with
  | nil => exact fun _ => rfl
  | cons a as ih =>
    intro kept
    rw [List.foldl_cons, ih, names_inheritFrom, List.flatMap_cons, handedDown, handedDown,
      handedDown, List.filter_append, List.foldl_append]

theorem names_inheritedOf (t : ClassTable) (c : ClassId) :
    (inheritedOf t c).map (·.name) =
      (handedDown t c ((t.ancestors c).reverse.flatMap fun a =>
        (t.methods a).map (·.name))).eraseDups :=
  (names_foldl_inheritFrom _ []).trans (foldl_joinName _)

end Order

/-- Lookup and the list are two ways to the same methods. -/
theorem inherits_inheritedOf {t : ClassTable} (h : t.WellFormed) (c : ClassId) :
    t.Inherits c (inheritedOf t c) where
  own := fun hm => findMethod?_of_own (h.ownMethod?_of_method? hm)
  listed := fun e he => ((mem_inheritedOf_iff h).mp he).2
  unseen := by
    intro n notOwn notListed
    have own := ownMethod?_eq_none_iff.mpr notOwn
    cases found : t.findMethod? c n with
    | none => rfl
    | some r =>
      have listed : (⟨n, r⟩ : Inherited) ∈ inheritedOf t c :=
        (mem_inheritedOf_iff h).mpr ⟨own, found⟩
      exact absurd (List.mem_map_of_mem listed) notListed
  distinct := nodup_inheritedOf t c
  foreign := fun e he => ownMethod?_eq_none_iff.mp ((mem_inheritedOf_iff h).mp he).1
  nearest := by
    intro e he
    obtain ⟨notOwn, found⟩ := (mem_inheritedOf_iff h).mp he
    refine ⟨exists_method_of_find found, ?_⟩
    rw [findMethod?, chain, List.findSome?_cons, notOwn] at found
    obtain ⟨nearer, a, above, split, here, before⟩ := List.findSome?_eq_some_iff.mp found
    obtain ⟨i, _, declared⟩ := Option.map_eq_some_iff.mp here
    refine ⟨nearer, above, declared ▸ split, ?_⟩
    intro b hb
    exact ownMethod?_eq_none_iff.mp (Option.map_eq_none_iff.mp (before b hb))
  order := names_inheritedOf t c

/-- Whatever a program declares and however many errors may be reported, every class of its table
lists exactly the methods that lookup finds above it. -/
theorem hierarchy_inherits (limit : Option Nat) (p : Program .bare) {c : ClassId} {k : Class}
    (hk : (hierarchy limit p).table.get? c = some k) :
    (hierarchy limit p).table.Inherits c k.inherited := by
  rw [hierarchy_inheritanceListed limit p hk]
  exact inherits_inheritedOf (hierarchy_wellFormed limit p) c

/-- `B` declares `f` twice and overrides the one of `A`, `C` skips it, and `E` has no known parent. -/
def muddled : Program .bare where
  main := ⟨1, "Main", "args", [], []⟩
  classes := [
    ⟨2, (), "A", none, [], [giving "f", giving "g"]⟩,
    ⟨3, (), "B", some "A", [], [giving "h", giving "f", giving "f"]⟩,
    ⟨4, (), "C", some "B", [], [giving "g"]⟩,
    ⟨5, (), "D", some "C", [], []⟩,
    ⟨6, (), "E", some "F", [], []⟩]
where
  giving (name : Name) : MethodDecl .bare := ⟨1, (), .int, name, [], [], [], .node 1 () (.int 0)⟩

theorem hierarchy_inherits_muddled :
    (hierarchy (some 5) muddled).report.findings =
        [⟨1, .duplicateMethod "f" "B"⟩, ⟨6, .unknownSuperclass "E" "F"⟩] ∧
      ∃ k, (hierarchy (some 5) muddled).table.get? 4 = some k ∧
        k.inherited = [⟨"f", ⟨2, 1⟩⟩, ⟨"g", ⟨3, 0⟩⟩, ⟨"h", ⟨2, 0⟩⟩] ∧
        (hierarchy (some 5) muddled).table.Inherits 4 k.inherited := by
  refine ⟨by decide +kernel, ?_⟩
  obtain ⟨k, hk⟩ := get?_of_lt_size (t := (hierarchy (some 5) muddled).table) (c := 4)
    (by decide +kernel)
  have inherits := hierarchy_inherits (some 5) muddled hk
  refine ⟨k, hk, ?_, inherits⟩
  have inherited : (((hierarchy (some 5) muddled).table.get? 4).map (·.inherited)) =
      some [⟨"f", ⟨2, 1⟩⟩, ⟨"g", ⟨3, 0⟩⟩, ⟨"h", ⟨2, 0⟩⟩] := by decide +kernel
  rw [hk] at inherited
  exact Option.some.inj inherited

end Check

end MiniJava
