import MiniJava.Proofs.Declared.Accepted

/-!
# Overriding along whole chains

The override pass compares a method with the nearest declaration above its class only. In a
well-declared program that is as much as comparing it with the declarations of all ancestors, however
many classes in between declare the name too or do not.
-/
namespace MiniJava

/-- The two declarations take and return the same. -/
structure MethodDecl.Repeats (m k : MethodDecl .bare) : Prop where
  returnTy : m.returnTy = k.returnTy
  count : m.params.length = k.params.length
  types : m.params.map (·.ty) = k.params.map (·.ty)

/-- The class `a` is a proper ancestor of `d`, by the names of superclasses. -/
inductive Program.Extends (p : Program .bare) : ClassDecl .bare → ClassDecl .bare → Prop
  | parent {d a : ClassDecl .bare} : a ∈ p.classes → d.superclass = some a.name → Extends p d a
  | above {d e a : ClassDecl .bare} :
    e ∈ p.classes → d.superclass = some e.name → Extends p e a → Extends p d a

/-- A method repeats every method of its name that a proper ancestor of its class declares. -/
def Program.OverridesRepeat (p : Program .bare) : Prop :=
  ∀ d ∈ p.classes, ∀ a, p.Extends d a →
    ∀ m ∈ d.methods, ∀ k ∈ a.methods, m.name = k.name → m.Repeats k

/-- What can be called on a class can be called on every class below it, with arguments and result
of the same types. -/
def ClassTable.CallableBelow (t : ClassTable) : Prop :=
  ∀ {d a n r k}, t.Descends d a → t.findMethod? a n = some r → t.method? r = some k →
    ∃ s m, t.findMethod? d n = some s ∧ t.method? s = some m ∧
      m.returnTy = k.returnTy ∧ m.paramTys = k.paramTys

theorem ClassTable.OverridesAgree.callableBelow {t : ClassTable} (h : t.OverridesAgree)
    (forest : t.Forest) : t.CallableBelow := by
  intro d a n r k hda hr hk
  have seen := forest.findMethod?_isSome_of_descends hda (by rw [hr]; rfl)
  obtain ⟨s, hs⟩ := Option.isSome_iff_exists.mp seen
  obtain ⟨m, hm, _⟩ := exists_method_of_find hs
  obtain ⟨returnTy, paramTys⟩ := h.of_descends forest hda hs hr hm hk
  exact ⟨s, m, hs, hm, returnTy, paramTys⟩

namespace Check

open ClassTable

theorem agrees_methodOf_iff {c b : ClassId} {m k : MethodDecl .bare} :
    (methodOf c m).Agrees (methodOf b k) ↔ m.Repeats k := by
  have paramTys : ∀ (c : ClassId) (m : MethodDecl .bare),
      (methodOf c m).paramTys = m.params.map (·.ty) := by
    intro c m
    simp [methodOf, Method.paramTys, Method.params, localOf]
  rw [Method.Agrees, paramTys, paramTys]
  constructor
  · rintro ⟨returnTy, types⟩
    exact ⟨returnTy, by simpa using congrArg List.length types, types⟩
  · exact fun same => ⟨same.returnTy, same.types⟩

section Mirrors
variable {strict : Bool} {p : Program .bare} {t : ClassTable} (h : Mirrors strict p t)
include h

theorem Mirrors.mirrored {i : Nat} {d : ClassDecl .bare} (hd : p.classes[i]? = some d) :
    ∃ k, t.get? (i + 1) = some k ∧ Mirrored strict (p.classes.take i) (i + 1) d k := by
  obtain ⟨hi, rfl⟩ := List.getElem?_eq_some_iff.mp hd
  have split : p.classes = p.classes.take i ++ p.classes[i] :: p.classes.drop (i + 1) := by
    rw [List.getElem_cons_drop, List.take_append_drop]
  have length : (p.classes.take i).length = i := List.length_take_of_le (Nat.le_of_lt hi)
  have mirrored := h.classes _ _ _ split
  rwa [length] at mirrored

theorem Mirrors.method?_iff {i : Nat} {d : ClassDecl .bare} (hd : p.classes[i]? = some d)
    {x : Nat} {m : Method} :
    t.method? ⟨i + 1, x⟩ = some m ↔ ∃ k, d.methods[x]? = some k ∧ methodOf (i + 1) k = m := by
  obtain ⟨c, hc, mirrored⟩ := h.mirrored hd
  rw [method?, ClassTable.methods, hc]
  simp only [Option.map_some, Option.getD_some, mirrored.methods, List.getElem?_map,
    Option.map_eq_some_iff]

theorem Mirrors.exists_class {r : MethodRef} {m : Method} (hm : t.method? r = some m) :
    ∃ i d, r.cls = i + 1 ∧ p.classes[i]? = some d := by
  obtain ⟨k, hk, hm⟩ := get?_of_method? hm
  rcases h.get?_cases hk with ⟨_, _, none⟩ | ⟨before, d, _, hd, same, _⟩
  · rw [none] at hm
    cases hm
  · exact ⟨_, d, same, hd⟩

/-- The parent in the table is the class of the name that is extended. -/
theorem Mirrors.parent?_iff (distinct : p.classNames.Nodup) {i : Nat} {d : ClassDecl .bare}
    (hd : p.classes[i]? = some d) {q : ClassId} :
    t.parent? (i + 1) = some q ↔
      ∃ j e, q = j + 1 ∧ p.classes[j]? = some e ∧ d.superclass = some e.name := by
  obtain ⟨k, hk, mirrored⟩ := h.mirrored hd
  have parent := mirrored.parent
  rw [parent?, hk, Option.bind_some]
  cases hs : d.superclass with
  | none =>
    simp only [ParentOf, hs] at parent
    rw [parent]
    constructor
    · intro top
      cases top
    · rintro ⟨_, _, _, _, top⟩
      cases top
  | some s =>
    simp only [ParentOf, hs] at parent
    obtain ⟨j, e, he, rfl, parent⟩ := parent
    have he : p.classes[j]? = some e := by
      obtain ⟨hj, hget⟩ := List.getElem?_eq_some_iff.mp he
      rw [← hget, List.getElem_take]
      exact List.getElem?_eq_getElem _
    rw [parent]
    constructor
    · rintro ⟨⟩
      exact ⟨j, e, rfl, he, rfl⟩
    · rintro ⟨j', e', rfl, he', same⟩
      have names : (p.classes.map (·.name)).Nodup := (List.nodup_cons.mp distinct).2
      have hj : j < (p.classes.map (·.name)).length := by
        rw [List.length_map]
        exact (List.getElem?_eq_some_iff.mp he).1
      have index : j = j' := by
        refine (List.getElem?_inj hj names).mp ?_
        rw [List.getElem?_map, List.getElem?_map, he, he']
        exact same
      rw [index]

theorem Mirrors.extends_of_descends (distinct : p.classNames.Nodup) {q b : ClassId}
    (hqb : t.Descends q b) {i : Nat} {d : ClassDecl .bare} (hd : p.classes[i]? = some d)
    (hq : t.parent? (i + 1) = some q) :
    ∃ j a, b = j + 1 ∧ p.classes[j]? = some a ∧ p.Extends d a := by
  induction hqb generalizing i d with
  | self q =>
    obtain ⟨j, e, rfl, he, superclass⟩ := (h.parent?_iff distinct hd).mp hq
    exact ⟨j, e, rfl, he, .parent (List.mem_of_getElem? he) superclass⟩
  | up hp _ ih =>
    obtain ⟨j, e, rfl, he, superclass⟩ := (h.parent?_iff distinct hd).mp hq
    obtain ⟨l, a, hl, ha, above⟩ := ih he hp
    exact ⟨l, a, hl, ha, .above (List.mem_of_getElem? he) superclass above⟩

theorem Mirrors.descends_of_extends (distinct : p.classNames.Nodup) {d a : ClassDecl .bare}
    (hda : p.Extends d a) {i : Nat} (hd : p.classes[i]? = some d) :
    ∃ j, p.classes[j]? = some a ∧ t.Descends (i + 1) (j + 1) := by
  induction hda generalizing i with
  | parent ha superclass =>
    obtain ⟨j, hj⟩ := List.getElem?_of_mem ha
    have hp := (h.parent?_iff distinct hd).mpr ⟨j, _, rfl, hj, superclass⟩
    exact ⟨j, hj, .up hp (.self _)⟩
  | above he superclass _ ih =>
    obtain ⟨j, hj⟩ := List.getElem?_of_mem he
    have hp := (h.parent?_iff distinct hd).mpr ⟨j, _, rfl, hj, superclass⟩
    obtain ⟨l, hl, descends⟩ := ih hj
    exact ⟨l, hl, .up hp descends⟩

/-- In the table the nearest declarations agree exactly if all declarations in the tree do. -/
theorem Mirrors.overridesAgree_iff (wf : t.WellFormed) (distinct : p.classNames.Nodup) :
    t.OverridesAgree ↔ p.OverridesRepeat := by
  have forest : t.Forest := wf.forest
  constructor
  · intro agree d hd a hda m hm k hk name
    obtain ⟨i, hi⟩ := List.getElem?_of_mem hd
    obtain ⟨j, hj, descends⟩ := h.descends_of_extends distinct hda hi
    obtain ⟨x, hx⟩ := List.getElem?_of_mem hm
    obtain ⟨y, hy⟩ := List.getElem?_of_mem hk
    have own := (h.method?_iff hi).mpr ⟨m, hx, rfl⟩
    have above := (h.method?_iff hj).mpr ⟨k, hy, rfl⟩
    have seen : t.findMethod? (i + 1) m.name = some ⟨i + 1, x⟩ :=
      findMethod?_of_own (wf.ownMethod?_of_method? own)
    have seen' : t.findMethod? (j + 1) m.name = some ⟨j + 1, y⟩ :=
      findMethod?_of_own (name ▸ wf.ownMethod?_of_method? above)
    exact agrees_methodOf_iff.mp (agree.of_descends forest descends seen seen' own above)
  · intro same r m q s k hm hq hs hk
    obtain ⟨i, d, hr, hd⟩ := h.exists_class hm
    obtain ⟨hchain, _⟩ := findMethod?_eq_some hs
    obtain ⟨k', hk', name⟩ := exists_method_of_find hs
    obtain rfl := Option.some.inj (hk.symm.trans hk')
    obtain ⟨j, a, hsc, ha, hda⟩ := h.extends_of_descends distinct
      (forest.mem_chain_iff.mp hchain) hd (hr ▸ hq)
    obtain ⟨c, x⟩ := r
    obtain ⟨b, y⟩ := s
    dsimp only at hr hsc
    subst hr
    subst hsc
    obtain ⟨m', own, rfl⟩ := (h.method?_iff hd).mp hm
    obtain ⟨k', above, rfl⟩ := (h.method?_iff ha).mp hk
    exact agrees_methodOf_iff.mpr (same d (List.mem_of_getElem? hd) a hda m'
      (List.mem_of_getElem? own) k' (List.mem_of_getElem? above) name.symm)

end Mirrors

/-- In a program that has passed the hierarchy and the declarations, the override pass reports
nothing exactly if every method repeats all the methods it overrides. -/
theorem overrides_eq_nil_iff (strict : Bool) (p : Program .bare) :
    let h := hierarchy none p
    let d := declarations strict h.program h.table h.report
    h.report.findings = [] → d.2.findings = [] →
      ((overrides d.1 d.2).findings = [] ↔ p.OverridesRepeat) ∧
        ((overrides d.1 d.2).findings = [] → d.1.CallableBelow) := by
  intro h d clean clean'
  have wf : d.1.WellFormed :=
    (hierarchy_wellFormed none p).of_sameOutline (declarations_outline strict _ _ _).symm
  have locals : d.1.LocalsFit := declarations_localsFit strict _ _ _ (hierarchy_localsFit none p)
  have unlimited : d.2.limit = none := by
    obtain ⟨fs, hfs⟩ := declarations_addAll strict h.program h.table h.report
    exact (congrArg Report.limit hfs).trans
      ((Report.limit_addAll _ fs).trans (hierarchy_limit none p))
  have silent : (overrides d.1 d.2).findings = [] ↔ d.1.OverridesAgree := by
    rw [← overridesAgree_iff locals, overrides, Report.findings_addAll_of_unlimited unlimited,
      clean', List.nil_append]
  have mirrors : Mirrors strict p d.1 := mirrors_of_clean clean clean'
  have distinct := ((hierarchy_eq_nil_iff p).mp clean).names
  exact ⟨silent.trans (mirrors.overridesAgree_iff wf distinct),
    fun quiet => OverridesAgree.callableBelow (silent.mp quiet) wf.forest⟩

/-- `C` overrides `f` of `A` with a parameter of another type, past `B`, which does not declare
it. -/
def skipping : Program .bare where
  main := ⟨1, "Main", "args", [], []⟩
  classes := [
    ⟨1, (), "A", none, [], [returning "f" [⟨1, .int, "x"⟩] (.int 0)]⟩,
    ⟨1, (), "B", some "A", [], [returning "g" [] (.int 0)]⟩,
    ⟨1, (), "C", some "B", [], [returning "f" [⟨1, .boolean, "x"⟩] (.int 0)]⟩]

theorem overrides_eq_nil_iff_skipping :
    (let h := hierarchy none skipping
      let d := declarations false h.program h.table h.report
      h.report.findings = [] ∧ d.2.findings = [] ∧
        (overrides d.1 d.2).findings = [⟨1, .overrideParamType "f" "A" 1 .int .boolean⟩] ∧
        ¬skipping.OverridesRepeat) ∧
      (let h := hierarchy none branches
        let d := declarations false h.program h.table h.report
        h.report.findings = [] ∧ d.2.findings = [] ∧ (overrides d.1 d.2).findings = [] ∧
          branches.OverridesRepeat ∧ d.1.CallableBelow) := by
  constructor
  · intro h d
    have clean : h.report.findings = [] := by decide +kernel
    have clean' : d.2.findings = [] := by decide +kernel
    have found : (overrides d.1 d.2).findings =
        [⟨1, .overrideParamType "f" "A" 1 .int .boolean⟩] := by decide +kernel
    obtain ⟨repeats, _⟩ := overrides_eq_nil_iff false skipping clean clean'
    refine ⟨clean, clean', found, fun all => ?_⟩
    rw [repeats.mpr all] at found
    cases found
  · intro h d
    have clean : h.report.findings = [] := by decide +kernel
    have clean' : d.2.findings = [] := by decide +kernel
    have quiet : (overrides d.1 d.2).findings = [] := by decide +kernel
    obtain ⟨repeats, callable⟩ := overrides_eq_nil_iff false branches clean clean'
    exact ⟨clean, clean', quiet, repeats.mp quiet, callable quiet⟩

end Check

end MiniJava
