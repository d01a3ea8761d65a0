import MiniJava.Check.Overrides
import MiniJava.Proofs.Class.WellFormed
import MiniJava.Proofs.Findings

/-!
# Overriding methods

If the override pass reports nothing, a method agrees with the nearest declaration above its class,
and by induction along parents with every declaration above it: what a class sees under a name takes
and returns the same as what any ancestor sees under it.
-/
namespace MiniJava

/-- The two methods take and return the same. -/
def Method.Agrees (m k : Method) : Prop := m.returnTy = k.returnTy ∧ m.paramTys = k.paramTys

theorem Method.Agrees.refl (m : Method) : m.Agrees m := ⟨rfl, rfl⟩

theorem Method.Agrees.trans {m k l : Method} (h : m.Agrees k) (h' : k.Agrees l) : m.Agrees l :=
  ⟨h.1.trans h'.1, h.2.trans h'.2⟩

theorem Method.Agrees.of_declared {m k m' k' : Method} (h : m.Agrees k)
    (hm : m'.declared = m.declared) (hk : k'.declared = k.declared) : m'.Agrees k' := by
  refine ⟨?_, ?_⟩
  · have hr := congrArg Method.returnTy hm
    have hs := congrArg Method.returnTy hk
    exact hr.trans (h.1.trans hs.symm)
  · rw [Method.paramTys_eq_of_declared hm, Method.paramTys_eq_of_declared hk, h.2]

namespace ClassTable

/-- Every method agrees with the one it overrides. -/
def OverridesAgree (t : ClassTable) : Prop :=
  ∀ {r m p s k}, t.method? r = some m → t.parent? r.cls = some p →
    t.findMethod? p m.name = some s → t.method? s = some k → m.Agrees k

variable {t u : ClassTable}

theorem OverridesAgree.of_sameDeclarations (h : t.OverridesAgree) (hd : SameDeclarations t u) :
    u.OverridesAgree := by
  intro r m p s k hm hp hs hk
  obtain ⟨m', hm', em⟩ := hd.symm.exists_method? hm
  obtain ⟨k', hk', ek⟩ := hd.symm.exists_method? hk
  have name : m'.name = m.name := by
    have hn := congrArg Method.name em
    exact hn
  have agrees := h hm' ((hd.outline.parent? r.cls).trans hp)
    (((hd.outline.findMethod? p m'.name).trans (by rw [name])).trans hs) hk'
  exact agrees.of_declared em.symm ek.symm

/-- What a class sees under a name agrees with what its ancestors see under it. -/
theorem OverridesAgree.of_descends (h : t.OverridesAgree) (forest : t.Forest) {d a : ClassId}
    (hda : t.Descends d a) {n : Name} {r s : MethodRef} {m k : Method}
    (hr : t.findMethod? d n = some r) (hs : t.findMethod? a n = some s)
    (hm : t.method? r = some m) (hk : t.method? s = some k) : m.Agrees k := by
  induction hda generalizing r m with
  | self _ =>
    obtain rfl := Option.some.inj (hr.symm.trans hs)
    obtain rfl := Option.some.inj (hm.symm.trans hk)
    exact .refl m
  | @up d p a hp hpa ih =>
    cases hown : t.ownMethod? d n with
    | none =>
      rw [forest.findMethod?_of_parent hp hown] at hr
      exact ih hr hs hm
    | some i =>
      obtain rfl := Option.some.inj ((findMethod?_of_own hown).symm.trans hr)
      have above := forest.findMethod?_isSome_of_descends hpa (by rw [hs]; rfl)
      obtain ⟨q, hq⟩ := Option.isSome_iff_exists.mp above
      obtain ⟨l, hl, _⟩ := exists_method_of_find hq
      have name : m.name = n := by
        obtain ⟨m', hm', hname⟩ := exists_method_of_own hown
        exact Option.some.inj (hm.symm.trans hm') ▸ hname
      exact (h hm hp (name ▸ hq) hl).trans (ih hq hs hl)

end ClassTable

namespace Check

open ClassTable

theorem mismatch?_eq_none_iff (as : List Ty) :
    ∀ (n : Nat) (bs : List Ty), as.length = bs.length → (mismatch? n as bs = none ↔ as = bs) := by
  induction as with
  | nil =>
    intro n bs hlen
    rw [List.length_eq_zero_iff.mp hlen.symm]
    exact ⟨fun _ => rfl, fun _ => rfl⟩
  | cons a as ih =>
    intro n bs hlen
    cases bs with
    | nil => cases hlen
    | cons b bs =>
      rw [mismatch?]
      split
      · rename_i heq
        rw [heq, ih (n + 1) bs (Nat.succ.inj hlen), List.cons.injEq, and_iff_right rfl]
      · rename_i hne
        exact ⟨fun h => (by cases h), fun h => absurd (List.cons.inj h).1 hne⟩

theorem compareReturn_eq_nil_iff {m k : Method} {ancestor : Name} :
    (compareReturn m k ancestor).findings = [] ↔ m.returnTy = k.returnTy := by
  unfold compareReturn
  split
  · rename_i same
    exact ⟨fun _ => same, fun _ => rfl⟩
  · rename_i other
    exact ⟨fun clean => by simp at clean, fun same => absurd same other⟩

theorem compareParams_eq_nil_iff {m k : Method} {ancestor : Name}
    (fit : m.paramTys.length = m.paramCount) (fit' : k.paramTys.length = k.paramCount) :
    (compareParams m k ancestor).findings = [] ↔ m.paramTys = k.paramTys := by
  unfold compareParams
  split
  · rename_i count
    rw [← mismatch?_eq_none_iff _ 1 _ (fit.trans (count.trans fit'.symm))]
    split
    · rename_i same
      exact ⟨fun _ => same, fun _ => rfl⟩
    · rename_i other
      rw [other]
      exact ⟨fun clean => by simp at clean, fun same => by cases same⟩
  · rename_i count
    refine ⟨fun clean => by simp at clean, fun same => ?_⟩
    exact absurd (fit.symm.trans ((congrArg List.length same).trans fit')) count

theorem checkMethods_eq_nil_iff {t : ClassTable} {p : ClassId} {ms : List Method} :
    (checkMethods t p ms).findings = [] ↔ ∀ m ∈ ms, (checkOverride t p m).findings = [] := by
  induction ms with
  | nil => simp [checkMethods]
  | cons k ks ih =>
    rw [checkMethods, Found.findings_bind, List.append_eq_nil_iff, ih, List.forall_mem_cons]

theorem checkClasses_eq_nil_iff {t : ClassTable} {cs : List Class} :
    (checkClasses t cs).findings = [] ↔
      ∀ c ∈ cs, ∀ p, c.parent = some p → (checkMethods t p c.methods).findings = [] := by
  induction cs with
  | nil => simp [checkClasses]
  | cons d ds ih =>
    rw [List.forall_mem_cons, ← ih, checkClasses]
    cases d.parent with
    | none => simp
    | some p => simp

/-- A method is compared with the nearest declaration of its name above. -/
theorem checkOverride_eq_nil_iff {t : ClassTable} (locals : t.LocalsFit) {r : MethodRef} {m : Method}
    {p : ClassId} (hm : t.method? r = some m) :
    (checkOverride t p m).findings = [] ↔
      ∀ s k, t.findMethod? p m.name = some s → t.method? s = some k → m.Agrees k := by
  rw [checkOverride]
  cases hs : t.findMethod? p m.name with
  | none => simp
  | some s =>
    obtain ⟨k, hk, _⟩ := exists_method_of_find hs
    simp only [hk, Found.findings_bind, List.append_eq_nil_iff, compareReturn_eq_nil_iff,
      compareParams_eq_nil_iff (locals.length_paramTys hm) (locals.length_paramTys hk)]
    constructor
    · rintro agrees _ _ ⟨⟩ hk'
      exact Option.some.inj (hk.symm.trans hk') ▸ agrees
    · exact fun agrees => agrees s k rfl hk

/-- Every method is compared with the one it overrides, and nothing else is. -/
theorem overridesAgree_iff {t : ClassTable} (locals : t.LocalsFit) :
    (checkClasses t t.classes.toList).findings = [] ↔ t.OverridesAgree := by
  rw [checkClasses_eq_nil_iff]
  constructor
  · intro clean r m p s k hm hp hs hk
    obtain ⟨c, hc, hparent⟩ := get?_of_parent? hp
    have hmem : m ∈ c.methods := by
      have hmethods := mem_methods_of_method? hm
      rw [methods, hc] at hmethods
      exact hmethods
    have quiet := checkMethods_eq_nil_iff.mp
      (clean c (Array.mem_toList_iff.mpr (Array.mem_of_getElem? hc)) p hparent) m hmem
    exact (checkOverride_eq_nil_iff locals hm).mp quiet s k hs hk
  · intro agree c hc p hparent
    rw [checkMethods_eq_nil_iff]
    intro m hm
    obtain ⟨i, hi, hget⟩ := List.mem_iff_getElem.mp hc
    obtain ⟨j, hj, hmeth⟩ := List.mem_iff_getElem.mp hm
    have here : t.get? i = some c := by
      rw [get?, ← hget]
      simp
    have method : t.method? ⟨i, j⟩ = some m := by
      rw [method?, methods, here, ← hmeth]
      exact List.getElem?_eq_getElem hj
    have parent : t.parent? i = some p := by
      rw [parent?, here]
      exact hparent
    exact (checkOverride_eq_nil_iff locals method).mpr fun s k hs hk => agree method parent hs hk

end Check

end MiniJava
