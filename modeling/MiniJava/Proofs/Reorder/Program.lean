import Mathlib.Data.List.Nodup
import MiniJava.Proofs.Declared.Overrides
import MiniJava.Proofs.Reorder.Table

/-!
# Classes in another order

The rules for the declarations of a program do not ask for an order of its classes, except that a
superclass comes first. So a program whose classes are put into another such order is ready for the
body pass if the program was, with the same classes under other numbers.
-/
namespace MiniJava

/-- The classes of the second program are those of the first one in another order, in which no class
stands before its superclass. -/
structure Program.Reordered (p q : Program .bare) : Prop where
  main : q.main = p.main
  perm : q.classes.Perm p.classes
  order : q.classes.Pairwise fun d e => d.superclass ≠ some e.name

namespace Program.Reordered
variable {p q : Program .bare} (h : p.Reordered q)
include h

theorem mem_classes {d : ClassDecl .bare} : d ∈ q.classes ↔ d ∈ p.classes := h.perm.mem_iff

theorem classNames : q.classNames.Perm p.classNames := by
  rw [Program.classNames, h.main, Program.classNames]
  exact (h.perm.map (·.name)).cons _

theorem hierarchyRules (rules : p.HierarchyRules) : q.HierarchyRules where
  names := h.classNames.nodup_iff.mpr rules.names
  members := fun d hd => rules.members d (h.mem_classes.mp hd)
  superclass := by
    intro before d after split s superclass
    have hd : d ∈ q.classes := split ▸ List.mem_append_right before List.mem_cons_self
    obtain ⟨front, back, split'⟩ := List.append_of_mem (h.mem_classes.mp hd)
    obtain ⟨e, he, rfl⟩ := List.mem_map.mp (rules.superclass front d back split' s superclass)
    have distinct : (p.classes.map (·.name)).Nodup := (List.nodup_cons.mp rules.names).2
    have other : e.name ≠ d.name := by
      rw [split', List.map_append, List.nodup_append] at distinct
      exact distinct.2.2 _ (List.mem_map_of_mem he) _ (List.mem_map_of_mem List.mem_cons_self)
    have there : e ∈ before ++ d :: after := by
      rw [← split, h.mem_classes, split']
      exact List.mem_append_left _ he
    have order := h.order
    rw [split, List.pairwise_append, List.pairwise_cons] at order
    rcases List.mem_append.mp there with earlier | later
    · exact List.mem_map_of_mem earlier
    · rcases List.mem_cons.mp later with rfl | later
      · exact absurd rfl other
      · exact absurd superclass (order.2.1.1 e later)

theorem declaredIn {ty : Ty} (declared : ty.DeclaredIn p.classNames) :
    ty.DeclaredIn q.classNames :=
  fun n named => h.classNames.mem_iff.mpr (declared n named)

theorem declarationRules (rules : p.DeclarationRules) : q.DeclarationRules where
  main := by
    rw [h.main]
    exact ⟨fun v hv => h.declaredIn (rules.main.types v hv), rules.main.distinct⟩
  classes := by
    intro d hd
    obtain ⟨fields, methods⟩ := rules.classes d (h.mem_classes.mp hd)
    refine ⟨fun v hv => h.declaredIn (fields v hv), fun m hm => ?_⟩
    obtain ⟨returnTy, types, distinct⟩ := methods m hm
    exact ⟨h.declaredIn returnTy, fun v hv => h.declaredIn (types v hv), distinct⟩

theorem extends_of {d a : ClassDecl .bare} (hda : q.Extends d a) : p.Extends d a := by
  induction hda with
  | parent ha superclass => exact .parent (h.mem_classes.mp ha) superclass
  | above he superclass _ ih => exact .above (h.mem_classes.mp he) superclass ih

theorem overridesRepeat (rules : p.OverridesRepeat) : q.OverridesRepeat :=
  fun d hd a hda => rules d (h.mem_classes.mp hd) a (h.extends_of hda)

end Program.Reordered

namespace Check

open ClassTable

section Ready
variable {strict : Bool} {p : Program .bare}

/-- The bodies of a program are checked if its declarations keep the rules. -/
theorem exists_ready? (strict : Bool) (rules : p.HierarchyRules) (declared : p.DeclarationRules)
    (repeated : p.OverridesRepeat) : ∃ q st, ready? ⟨none, strict⟩ p = some (q, st) := by
  have clean := (hierarchy_eq_nil_iff p).mpr rules
  have clean' : (declarations strict (hierarchy none p).program (hierarchy none p).table
      (hierarchy none p).report).2.findings = [] := (declarations_eq_nil_iff clean).mpr declared
  have mirrors := mirrors_of_clean clean clean'
  have wf := (hierarchy_wellFormed none p).of_sameOutline (declarations_outline strict
    (hierarchy none p).program (hierarchy none p).table (hierarchy none p).report).symm
  have locals := declarations_localsFit strict (hierarchy none p).program (hierarchy none p).table
    (hierarchy none p).report (hierarchy_localsFit none p)
  have agree := (overridesAgree_iff locals).mpr
    ((mirrors.overridesAgree_iff wf rules.names).mpr repeated)
  obtain ⟨fs, hfs⟩ := declarations_addAll strict (hierarchy none p).program
    (hierarchy none p).table (hierarchy none p).report
  have limit := hierarchy_limit none p
  simp only [ready?]
  generalize hierarchy none p = h at *
  generalize declarations strict h.program h.table h.report = d at *
  have unlimited : d.2.limit = none := by rw [hfs, Report.limit_addAll, limit]
  have quiet : (overrides d.1 d.2).findings = [] := by
    rw [overrides, Report.findings_addAll_of_unlimited unlimited, clean', List.nil_append, agree]
  refine ⟨h.program, ⟨d.1, overrides d.1 d.2⟩, if_pos ?_⟩
  simp only [Bool.and_eq_true, Report.isClean_iff]
  exact ⟨⟨clean, clean'⟩, quiet⟩

/-- If the bodies of a program are checked, its declarations keep the rules. -/
theorem rules_of_ready? {q : Program .registered} {st : State}
    (ready : ready? ⟨none, strict⟩ p = some (q, st)) : p.DeclarationRules ∧ p.OverridesRepeat := by
  have known := ready_of_ready? (o := ⟨none, strict⟩) (by simp) ready
  obtain ⟨mirrors, rules⟩ := mirrors_of_ready? ready
  refine ⟨?_, (mirrors.overridesAgree_iff known.wellFormed rules.names).mp known.agree⟩
  simp only [ready?, Bool.and_eq_true, Option.ite_none_right_eq_some, Report.isClean_iff] at ready
  exact (declarations_eq_nil_iff ready.1.1.1).mp ready.1.1.2

/-- The classes of a program whose bodies are checked are numbered in their order. -/
theorem registered_of_ready? {q : Program .registered} {st : State}
    (ready : ready? ⟨none, strict⟩ p = some (q, st)) :
    q.main = ⟨p.main.line, p.main.name, p.main.param, p.main.vars, p.main.body⟩ ∧
      q.classes = numberedFrom 1 p.classes := by
  simp only [ready?, Bool.and_eq_true, Option.ite_none_right_eq_some, Report.isClean_iff,
    Option.some.injEq, Prod.mk.injEq] at ready
  obtain ⟨⟨⟨clean, _⟩, _⟩, rfl, _⟩ := ready
  obtain ⟨_, _, _, classes⟩ := hierarchy_of_clean clean
  exact ⟨rfl, classes⟩

end Ready

end Check

/-- The number of a class by its name: its place among some names becomes that among others. -/
def renumber (ns ms : List Name) (c : ClassId) : ClassId := (ns[c]?).elim c ms.idxOf

section Renumber
variable {ns ms : List Name} (perm : ms.Perm ns)
include perm

theorem getElem?_renumber (c : ClassId) : ms[renumber ns ms c]? = ns[c]? := by
  rw [renumber]
  cases hn : ns[c]? with
  | none =>
    have beyond := List.getElem?_eq_none_iff.mp hn
    exact List.getElem?_eq_none (Nat.le_trans (Nat.le_of_eq perm.length_eq) beyond)
  | some n =>
    have there : n ∈ ms := perm.mem_iff.mpr (List.mem_of_getElem? hn)
    exact List.getElem?_idxOf there

theorem renumber_renumber (distinct : ns.Nodup) (c : ClassId) :
    renumber ms ns (renumber ns ms c) = c := by
  rw [renumber, getElem?_renumber perm, renumber]
  cases hn : ns[c]? with
  | none => rfl
  | some n =>
    obtain ⟨hc, rfl⟩ := List.getElem?_eq_some_iff.mp hn
    exact distinct.idxOf_getElem c hc

/-- Names in another order are a renumbering. -/
theorem exists_renumbering (distinct : ns.Nodup) :
    ∃ σ : Equiv.Perm ClassId, ∀ c, ms[σ c]? = ns[c]? :=
  ⟨⟨renumber ns ms, renumber ms ns, renumber_renumber perm distinct,
    renumber_renumber perm.symm (perm.nodup_iff.mpr distinct)⟩, getElem?_renumber perm⟩

end Renumber

/-- The numbers of the classes of two programs belong together by the names of the classes. -/
structure Program.Renumbers (p q : Program .bare) (σ : Equiv.Perm ClassId) : Prop where
  reordered : p.Reordered q
  distinct : p.classNames.Nodup
  names : ∀ c, q.classNames[σ c]? = p.classNames[c]?

theorem Program.Reordered.exists_renumbers {p q : Program .bare} (h : p.Reordered q)
    (distinct : p.classNames.Nodup) : ∃ σ, p.Renumbers q σ := by
  obtain ⟨σ, names⟩ := exists_renumbering h.classNames distinct
  exact ⟨σ, h, distinct, names⟩

namespace Program.Renumbers
variable {p q : Program .bare} {σ : Equiv.Perm ClassId} (h : p.Renumbers q σ)
include h

theorem distinct' : q.classNames.Nodup := h.reordered.classNames.nodup_iff.mpr h.distinct

/-- The main class keeps its number. -/
theorem main : σ 0 = 0 := by
  have name : q.classNames[σ 0]? = q.classNames[0]? := by
    rw [h.names, Program.classNames, Program.classNames, h.reordered.main]
    rfl
  have inside : 0 < q.classNames.length := Nat.succ_pos _
  exact ((List.getElem?_inj inside h.distinct').mp name.symm).symm

/-- A class stands under its other number in the other program. -/
theorem getElem? {i : Nat} {d : ClassDecl .bare} (hd : p.classes[i]? = some d) :
    ∃ j, σ (i + 1) = j + 1 ∧ q.classes[j]? = some d := by
  have name : q.classNames[σ (i + 1)]? = some d.name := by
    rw [h.names, Program.classNames, List.getElem?_cons_succ, List.getElem?_map, hd, Option.map_some]
  cases hj : σ (i + 1) with
  | zero => exact absurd (σ.injective (hj.trans h.main.symm)) (Nat.succ_ne_zero i)
  | succ j =>
    rw [hj, Program.classNames, List.getElem?_cons_succ, List.getElem?_map] at name
    obtain ⟨e, he, same⟩ := Option.map_eq_some_iff.mp name
    have distinct : (q.classes.map (·.name)).Nodup := (List.nodup_cons.mp h.distinct').2
    have there : d ∈ q.classes := h.reordered.mem_classes.mpr (List.mem_of_getElem? hd)
    obtain rfl := List.inj_on_of_nodup_map distinct (List.mem_of_getElem? he) there same
    exact ⟨j, rfl, he⟩

end Program.Renumbers

/-- The second class is the first one, but for what it inherits, with other numbers. -/
structure Class.Matches (σ : ClassId → ClassId) (k l : Class) : Prop where
  name : l.name = k.name
  line : l.line = k.line
  parent : l.parent = k.parent.map σ
  fields : l.fields = k.fields
  methods : l.methods = k.methods.map (Method.moved σ)
  entry : l.entry = k.entry

section Tables
variable {strict : Bool} {p q : Program .bare} {σ : Equiv.Perm ClassId} {t u : ClassTable}

open Check ClassTable

/-- The parent of a class is found by its name, wherever it stands. -/
theorem Program.Renumbers.parent? (h : p.Renumbers q σ) (mp : Mirrors strict p t)
    (mq : Mirrors strict q u) {i j : Nat} {d : ClassDecl .bare} (hi : p.classes[i]? = some d)
    (hj : q.classes[j]? = some d) : u.parent? (j + 1) = (t.parent? (i + 1)).map σ := by
  refine Option.ext fun c => (mq.parent?_iff h.distinct' hj).trans ?_
  rw [Option.map_eq_some_iff]
  constructor
  · rintro ⟨l, e, rfl, he, superclass⟩
    have there := h.reordered.mem_classes.mp (List.mem_of_getElem? he)
    obtain ⟨m, hm⟩ := List.getElem?_of_mem there
    obtain ⟨l', hl', he'⟩ := h.getElem? hm
    have same : l = l' := by
      have distinct : q.classes.Nodup := (List.nodup_cons.mp h.distinct').2.of_map
      exact (List.getElem?_inj (List.getElem?_eq_some_iff.mp he).1 distinct).mp (he.trans he'.symm)
    exact ⟨m + 1, (mp.parent?_iff h.distinct hi).mpr ⟨m, e, rfl, hm, superclass⟩, same ▸ hl'⟩
  · rintro ⟨a, ha, rfl⟩
    obtain ⟨m, e, rfl, hm, superclass⟩ := (mp.parent?_iff h.distinct hi).mp ha
    obtain ⟨l, hl, he⟩ := h.getElem? hm
    exact ⟨l, e, hl, he, superclass⟩

/-- The tables that two such programs declare have the same classes. -/
theorem Program.Renumbers.matches (h : p.Renumbers q σ) (mp : Mirrors strict p t)
    (mq : Mirrors strict q u) (c : ClassId) :
    (t.get? c = none ∧ u.get? (σ c) = none) ∨
      ∃ k l, t.get? c = some k ∧ u.get? (σ c) = some l ∧ Class.Matches σ k l := by
  cases c with
  | zero =>
    rw [h.main]
    refine Or.inr ⟨_, _, mp.main, mq.main, ?_⟩
    rw [h.reordered.main]
    exact ⟨rfl, rfl, rfl, rfl, rfl, rfl⟩
  | succ i =>
    cases hi : p.classes[i]? with
    | none =>
      have nameless : p.classNames[i + 1]? = none := by
        rw [Program.classNames, List.getElem?_cons_succ, List.getElem?_map, hi, Option.map_none]
      have left : t.names[i + 1]? = none := by rw [mp.names, nameless]
      have right : u.names[σ (i + 1)]? = none := by rw [mq.names, h.names, nameless]
      rw [getElem?_names, Option.map_eq_none_iff] at left right
      exact Or.inl ⟨left, right⟩
    | some d =>
      obtain ⟨j, hj, hd⟩ := h.getElem? hi
      obtain ⟨k, hk, mk⟩ := mp.mirrored hi
      obtain ⟨l, hl, ml⟩ := mq.mirrored hd
      have parent := h.parent? mp mq hi hd
      rw [ClassTable.parent?, ClassTable.parent?, hk, hl] at parent
      refine Or.inr ⟨k, l, hk, hj ▸ hl, ml.name.trans mk.name.symm, ml.line.trans mk.line.symm,
        parent, ml.fields.trans mk.fields.symm, ?_, ml.entry.trans mk.entry.symm⟩
      rw [ml.methods, mk.methods, List.map_map, ← hj]
      rfl

theorem Program.Renumbers.lookups (h : p.Renumbers q σ) (mp : Mirrors strict p t)
    (mq : Mirrors strict q u) : SameLookups σ t u where
  name c := by
    rcases h.matches mp mq c with ⟨hk, hl⟩ | ⟨k, l, hk, hl, same⟩
    · rw [hk, hl]
    · rw [hk, hl, Option.map_some, same.name, Option.map_some]
  parent? c := by
    rw [ClassTable.parent?, ClassTable.parent?]
    rcases h.matches mp mq c with ⟨hk, hl⟩ | ⟨k, l, hk, hl, same⟩
    · rw [hk, hl]
      rfl
    · rw [hk, hl]
      exact same.parent
  fields c := by
    rw [fields, fields]
    rcases h.matches mp mq c with ⟨hk, hl⟩ | ⟨k, l, hk, hl, same⟩
    · rw [hk, hl]
    · rw [hk, hl, Option.map_some, same.fields, Option.map_some]
  methods c := by
    rw [methods, methods]
    rcases h.matches mp mq c with ⟨hk, hl⟩ | ⟨k, l, hk, hl, same⟩
    · rw [hk, hl]
      rfl
    · rw [hk, hl, Option.map_some, same.methods]
      rfl
  entry c := by
    rcases h.matches mp mq c with ⟨hk, hl⟩ | ⟨k, l, hk, hl, same⟩
    · rw [hk, hl]
    · rw [hk, hl, Option.bind_some, same.entry, Option.bind_some]

/-- The tables of two such programs are the same but for the numbers. -/
theorem Program.Renumbers.renumbered (h : p.Renumbers q σ) (mp : Mirrors strict p t)
    (mq : Mirrors strict q u) (forest : t.Forest) (forest' : u.Forest)
    (listed : t.InheritanceListed) (listed' : u.InheritanceListed) : Renumbered σ t u := by
  have lookups := h.lookups mp mq
  refine ⟨fun c => ?_⟩
  rcases h.matches mp mq c with ⟨hk, hl⟩ | ⟨k, l, hk, hl, same⟩
  · rw [hk, hl, Option.map_none]
  · have inherited : l.inherited = k.inherited.map (Inherited.moved σ) := by
      rw [listed' hl, listed hk, inheritedOf_moved lookups forest forest']
    obtain ⟨name, line, parent, fields, methods, inherited', entry⟩ := l
    obtain ⟨rfl, rfl, rfl, rfl, rfl, rfl⟩ := same
    obtain rfl := inherited
    rw [hk, hl]
    rfl

/-- If the bodies of a program are checked, so are those of the program in another order, with the
same classes. -/
theorem Program.Reordered.ready (h : p.Reordered q) {p' : Program .registered} {st : State}
    (ready : ready? ⟨none, strict⟩ p = some (p', st)) :
    ∃ σ q' st', p.Renumbers q σ ∧ ready? ⟨none, strict⟩ q = some (q', st') ∧
      Renumbered σ st.table st'.table := by
  obtain ⟨mp, rules⟩ := mirrors_of_ready? ready
  obtain ⟨declared, repeated⟩ := rules_of_ready? ready
  obtain ⟨q', st', ready'⟩ := exists_ready? strict (h.hierarchyRules rules)
    (h.declarationRules declared) (h.overridesRepeat repeated)
  obtain ⟨σ, numbers⟩ := h.exists_renumbers rules.names
  obtain ⟨mq, _⟩ := mirrors_of_ready? ready'
  have known := ready_of_ready? (o := ⟨none, strict⟩) (by simp) ready
  have known' := ready_of_ready? (o := ⟨none, strict⟩) (by simp) ready'
  exact ⟨σ, q', st', numbers, ready', numbers.renumbered mp mq known.wellFormed.forest
    known'.wellFormed.forest known.listed known'.listed⟩

end Tables

end MiniJava
