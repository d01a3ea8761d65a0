import Mathlib.Data.Prod.Lex
import Mathlib.Data.String.Basic
import MiniJava.Name.Suggestion
import MiniJava.Proofs.Names.Edits

/-!
# The closest of several names

Candidates that suit a target are ranked by their distance to it and, at equal distance, as texts.
The rank is a linear order that no two names share, so the closest one is the least candidate, and
neither the order of the candidates nor their repetition matters.
-/
namespace MiniJava.Name

def rank (target c : String) : ℕ ×ₗ String := toLex (distance target c, c)

/-- Of the names in `cs` that suit the target, `best` has the least rank. -/
structure Best (target : String) (cs : List String) (best : String) : Prop where
  mem : best ∈ cs
  suits : suits target best = true
  least : ∀ c ∈ cs, Name.suits target c = true → rank target best ≤ rank target c

section
variable {target a b best : String} {cs cs' : List String}

theorem rank_le_iff : rank target a ≤ rank target b ↔
    distance target a < distance target b ∨ distance target a = distance target b ∧ a ≤ b :=
  Prod.Lex.toLex_le_toLex

theorem eq_of_rank_eq (h : rank target a = rank target b) : a = b :=
  (Prod.mk.inj (toLex.injective h)).2

theorem relation_of_le (near : distance target a ≤ 2) :
    relation target a = .related (distance target a) := if_pos near

theorem relation_of_gt (far : 2 < distance target a) : relation target a = .unrelated :=
  if_neg (Nat.not_le_of_gt far)

theorem suits_iff : suits target a = true ↔ a ≠ target ∧ distance target a ≤ 2 := by
  rw [suits, Bool.and_eq_true, bne_iff_ne]
  refine and_congr_right fun _ => ?_
  rcases Nat.lt_or_ge 2 (distance target a) with far | near
  · simp [relation_of_gt far, Relation.isRelated, Nat.not_le_of_gt far]
  · simp [relation_of_le near, Relation.isRelated, near]

theorem nearer_iff (ha : suits target a = true) (hb : suits target b = true) :
    nearer target a b = true ↔ rank target a < rank target b := by
  rw [nearer, relation_of_le (suits_iff.mp ha).2, relation_of_le (suits_iff.mp hb).2, rank, rank,
    Prod.Lex.toLex_lt_toLex, Relation.compare]
  rcases lt_trichotomy (distance target a) (distance target b) with less | same | more
  · simp [Nat.compare_eq_lt.mpr less, less]
  · simp [same]
  · simp [Nat.compare_eq_gt.mpr more, more.ne', more.le]

/-- A step keeps the one of lower rank. -/
theorem exists_closer (ha : suits target a = true) (hb : suits target b = true) :
    ∃ c, closer target (some a) b = some c ∧ (c = a ∨ c = b) ∧
      rank target c ≤ rank target a ∧ rank target c ≤ rank target b := by
  rw [closer]
  split
  · rename_i less
    exact ⟨b, rfl, .inr rfl, ((nearer_iff hb ha).mp less).le, le_rfl⟩
  · rename_i notLess
    have le := not_lt.mp fun less => notLess ((nearer_iff hb ha).mpr less)
    exact ⟨a, rfl, .inl rfl, le_rfl, le⟩

theorem exists_foldl_closer (all : ∀ c ∈ cs, suits target c = true) :
    ∀ a, suits target a = true → ∃ best, cs.foldl (closer target) (some a) = some best ∧
      best ∈ a :: cs ∧ ∀ c ∈ a :: cs, rank target best ≤ rank target c := by
  induction cs with
  | nil => exact fun a _ => ⟨a, rfl, List.mem_cons_self, by simp⟩
  | cons b cs ih =>
    intro a ha
    have hb := all b List.mem_cons_self
    obtain ⟨m, step, either, first, second⟩ := exists_closer ha hb
    have hm : suits target m = true := by
      rcases either with rfl | rfl
      · exact ha
      · exact hb
    obtain ⟨best, rest, mem, least⟩ := ih (fun c hc => all c (List.mem_cons_of_mem b hc)) m hm
    have below := least m List.mem_cons_self
    refine ⟨best, by rw [List.foldl_cons, step, rest], ?_, ?_⟩
    · rcases List.mem_cons.mp mem with rfl | mem
      · rcases either with rfl | rfl <;> simp
      · exact List.mem_cons_of_mem a (List.mem_cons_of_mem b mem)
    · intro c hc
      rcases List.mem_cons.mp hc with rfl | hc
      · exact below.trans first
      · rcases List.mem_cons.mp hc with rfl | hc
        · exact below.trans second
        · exact least c (List.mem_cons_of_mem m hc)

/-- Two names of least rank are the same. -/
theorem Best.unique (h : Best target cs a) (h' : Best target cs b) : a = b :=
  eq_of_rank_eq (le_antisymm (h.least b h'.mem h'.suits) (h'.least a h.mem h.suits))

theorem closest?_cases (target : String) (cs : List String) :
    (closest? target cs = none ∧ ∀ c ∈ cs, ¬suits target c = true) ∨
      ∃ best, closest? target cs = some best ∧ Best target cs best := by
  rw [closest?]
  cases suited : cs.filter (suits target) with
  | nil => exact .inl ⟨rfl, List.filter_eq_nil_iff.mp suited⟩
  | cons a rest =>
    have mem_iff : ∀ c, c ∈ a :: rest ↔ c ∈ cs ∧ suits target c = true := fun c => by
      rw [← suited, List.mem_filter]
    obtain ⟨best, found, mem, least⟩ := exists_foldl_closer
      (fun c hc => ((mem_iff c).mp (List.mem_cons_of_mem a hc)).2) a
      ((mem_iff a).mp List.mem_cons_self).2
    obtain ⟨mem, suits⟩ := (mem_iff best).mp mem
    exact .inr ⟨best, found, mem, suits, fun c hc hs => least c ((mem_iff c).mpr ⟨hc, hs⟩)⟩

theorem closest?_eq_none_iff : closest? target cs = none ↔ ∀ c ∈ cs, ¬suits target c = true := by
  rcases closest?_cases target cs with ⟨none, all⟩ | ⟨best, found, h⟩
  · exact iff_of_true none all
  · rw [found]
    exact iff_of_false nofun fun all => all best h.mem h.suits

theorem closest?_eq_some_iff : closest? target cs = some best ↔ Best target cs best := by
  rcases closest?_cases target cs with ⟨none, all⟩ | ⟨other, found, h⟩
  · rw [none]
    exact iff_of_false nofun fun h => all best h.mem h.suits
  · rw [found, Option.some.injEq]
    exact ⟨fun same => same ▸ h, h.unique⟩

/-- What is suggested is one of the candidates. -/
theorem mem_of_closest? (found : closest? target cs = some best) : best ∈ cs :=
  (closest?_eq_some_iff.mp found).mem

theorem best_iff : Best target cs best ↔
    best ∈ cs ∧ best ≠ target ∧ distance target best ≤ 2 ∧
      ∀ c ∈ cs, c ≠ target → distance target best < distance target c ∨
        distance target best = distance target c ∧ best ≤ c := by
  constructor
  · rintro ⟨mem, suits, least⟩
    obtain ⟨other, near⟩ := suits_iff.mp suits
    refine ⟨mem, other, near, fun c hc hne => ?_⟩
    rcases Nat.lt_or_ge 2 (distance target c) with far | near'
    · exact .inl (near.trans_lt far)
    · exact rank_le_iff.mp (least c hc (suits_iff.mpr ⟨hne, near'⟩))
  · rintro ⟨mem, other, near, least⟩
    refine ⟨mem, suits_iff.mpr ⟨other, near⟩, fun c hc hs => ?_⟩
    exact rank_le_iff.mpr (least c hc (suits_iff.mp hs).1)

/-- Only which names are candidates matters. -/
theorem closest?_congr (same : ∀ c, c ∈ cs' ↔ c ∈ cs) : closest? target cs' = closest? target cs := by
  refine Option.ext fun best => ?_
  rw [closest?_eq_some_iff, closest?_eq_some_iff, best_iff, best_iff]
  simp only [same]

theorem relation_comm (s t : String) : relation s t = relation t s := by
  rw [relation, relation, distance_comm]

end

/-- No name is suggested exactly if every other candidate is more than two edits away. Otherwise it is
the candidate with the least number of edits, of several such the smallest text, whatever the order
of the candidates and however often each of them is listed. -/
theorem closest?_least (target : String) (cs : List String) :
    (closest? target cs = none ↔ ∀ c ∈ cs, c ≠ target → 2 < distance target c) ∧
    (∀ best, closest? target cs = some best ↔
      best ∈ cs ∧ best ≠ target ∧ distance target best ≤ 2 ∧
        ∀ c ∈ cs, c ≠ target → distance target best < distance target c ∨
          distance target best = distance target c ∧ best ≤ c) ∧
    (∀ cs', (∀ c, c ∈ cs' ↔ c ∈ cs) → closest? target cs' = closest? target cs) ∧
    (∀ s t, IsLeast {n | Edits n s.toList t.toList} (distance s t)) ∧
    ∀ s t, relation s t = relation t s := by
  refine ⟨?_, fun best => ?_, fun cs' same => closest?_congr same, isLeast_distance, relation_comm⟩
  · rw [closest?_eq_none_iff]
    refine forall₂_congr fun c _ => ?_
    rw [suits_iff, not_and, Nat.not_le]
  · rw [closest?_eq_some_iff, best_iff]

end MiniJava.Name
