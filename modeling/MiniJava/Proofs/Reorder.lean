import Mathlib.Data.List.Perm.Subperm
import MiniJava.Proofs.Compact
import MiniJava.Proofs.Reorder.Layout
import MiniJava.Proofs.Reorder.Pass

/-!
# The order of unrelated classes

A program whose classes are put into another order, in which every superclass still comes first, is
accepted if it was, where fields need not be assigned before they are read. The classes have other
numbers then; but for these, every class has the same members and takes over the same methods, every
expression has the same type and every name stands for the same thing. With every class behind its
parent the objects and the tables of methods are the same, too.
-/
namespace MiniJava

open Check ClassTable

/-- Two analysed programs with the same classes under other numbers. -/
structure Checked.Renumbered (σ : Equiv.Perm ClassId) (c d : Checked) : Prop where
  table : ClassTable.Renumbered σ c.table d.table
  main : d.program.main = c.program.main.moved σ
  classes : d.program.classes.Perm (c.program.classes.map (ClassDecl.moved σ))

-- With a limit of 0 every program is accepted, and only its main class is entered. Then nothing
-- refers to a class, and the other classes stand in their order without any notes.

section Blank
variable {σ : ClassId → ClassId}

theorem movedBody_blank (ss : List (Stmt Unit Unit)) :
    movedBody σ (ss.map blankStmt) = ss.map blankStmt := by
  rw [movedBody, mapBody_eq_map, List.map_map]
  exact List.map_congr_left fun s _ => Stmt.map_map ..

/-- A class on which there are no notes. -/
def Check.blankClass (d : ClassDecl .bare) : ClassDecl .checked :=
  ⟨d.line, none, d.name, d.superclass, d.fields,
    d.methods.map fun m => blankMethod (registerMethod m none)⟩

theorem Check.blankClass_moved (d : ClassDecl .bare) : (blankClass d).moved σ = blankClass d := by
  have method : ∀ m : MethodDecl .bare, (blankMethod (registerMethod m none)).moved σ =
      blankMethod (registerMethod m none) := by
    intro m
    simp only [MethodDecl.moved, blankMethod, registerMethod, movedBody_blank, blank_moved]
    rfl
  simp only [ClassDecl.moved, blankClass, List.map_map, Function.comp_def, method]
  rfl

end Blank

namespace Check

theorem checkClassBodies_unregistered (ds : List (ClassDecl .bare)) (st : State) :
    checkClassBodies (ds.map unregistered) st = (ds.map blankClass, st) := by
  induction ds with
  | nil => rfl
  | cons d ds ih =>
    have first : checkClass (unregistered d) st = (blankClass d, st) := by
      change (ClassDecl.mk _ _ _ _ _ _, st) = _
      rw [blankClass, unregistered, registerClass, List.map_map]
      rfl
    change ((checkClass (unregistered d) st).1 ::
      (checkClassBodies (ds.map unregistered) (checkClass (unregistered d) st).2).1,
      (checkClassBodies (ds.map unregistered) (checkClass (unregistered d) st).2).2) = _
    rw [first, ih]
    rfl

/-- No statement of a body is looked at. -/
theorem checkStmts_of_full (p : Place) (ss : List (Stmt Unit Unit)) {st : State}
    (full : st.report.full = true) : checkStmts p ss st = (ss.map blankStmt, st) := by
  cases ss with
  | nil => rfl
  | cons s ss => rw [checkStmts, ifFull_apply, if_pos full, List.map_cons]

/-- No class is entered but the main class. -/
theorem hierarchy_of_zero (p : Program .bare) :
    hierarchy (some 0) p = ⟨withInherited (mainOnly p.main),
      ⟨⟨p.main.line, p.main.name, p.main.param, p.main.vars, p.main.body⟩,
        p.classes.map unregistered⟩, .empty (some 0)⟩ := by
  have entered : enterAll (mainOnly p.main) (.empty (some 0)) p.classes =
      (mainOnly p.main, .empty (some 0), p.classes.map unregistered) := by
    cases p.classes <;> rfl
  change Hierarchy.mk (withInherited (enterAll (mainOnly p.main) (.empty (some 0)) p.classes).1)
    ⟨_, (enterAll (mainOnly p.main) (.empty (some 0)) p.classes).2.2⟩
    (enterAll (mainOnly p.main) (.empty (some 0)) p.classes).2.1 = _
  rw [entered]

/-- The table of the main class alone. -/
def mainTable (m : MainClass .bare) : ClassTable :=
  (declareMain (withInherited (mainOnly m)) ⟨m.line, m.name, m.param, m.vars, m.body⟩).value

theorem unreported_eq (strict : Bool) (p : Program .bare) :
    unreported strict p = ⟨mainTable p.main,
      ⟨⟨p.main.line, p.main.name, p.main.param, p.main.vars, p.main.body.map blankStmt⟩,
        p.classes.map blankClass⟩⟩ := by
  have declared : ∀ (q : Program .registered) t,
      (declarations strict q t (.empty (some 0))).1 = (declareMain t q.main).value := by
    intro q t
    have full : ((Report.empty (some 0)).addAll (declareMain t q.main).findings).full = true := by
      rw [Report.addAll_of_full rfl]
      rfl
    rw [declarations]
    cases q.classes with
    | nil => rfl
    | cons d ds => rw [declareClasses, if_pos full]
  have run : ∀ (m : MainClass .registered) t,
      bodies ⟨m, p.classes.map unregistered⟩ ⟨t, .empty (some 0)⟩ =
        (⟨⟨m.line, m.name, m.param, m.vars, m.body.map blankStmt⟩, p.classes.map blankClass⟩,
          ⟨t, .empty (some 0)⟩) := by
    intro m t
    change (Program.mk ⟨_, _, _, _, (checkStmts ⟨0, none⟩ m.body ⟨t, .empty (some 0)⟩).1⟩
      (checkClassBodies (p.classes.map unregistered)
        (checkStmts ⟨0, none⟩ m.body ⟨t, .empty (some 0)⟩).2).1,
      (checkClassBodies (p.classes.map unregistered)
        (checkStmts ⟨0, none⟩ m.body ⟨t, .empty (some 0)⟩).2).2) = _
    rw [checkStmts_of_full _ _ rfl, checkClassBodies_unregistered]
  rw [unreported, hierarchy_of_zero]
  dsimp only
  rw [declared, run]
  rfl

end Check

/-- A class keeps its members under its own number. -/
theorem Class.moved_refl (k : Class) : k.moved (Equiv.refl ClassId) = k := by
  have method : Method.moved (Equiv.refl ClassId) = id := rfl
  have inherited : Inherited.moved (Equiv.refl ClassId) = id := rfl
  rw [Class.moved, method, inherited, List.map_id, List.map_id, Equiv.coe_refl, Option.map_id]
  rfl

/-- With a limit of 0 there is nothing to be put into another order. -/
theorem unreported_renumbered (strict : Bool) {p q : Program .bare} (h : p.Reordered q) :
    Checked.Renumbered (Equiv.refl ClassId) (unreported strict p) (unreported strict q) := by
  rw [unreported_eq, unreported_eq, h.main]
  refine ⟨⟨fun c => ?_⟩, ?_, ?_⟩
  · have same : Class.moved (Equiv.refl ClassId) = id := funext Class.moved_refl
    rw [same, Option.map_id]
    rfl
  · rw [MainClass.moved, movedBody_blank]
  · have same : ClassDecl.moved (Equiv.refl ClassId) ∘ blankClass = blankClass :=
      funext blankClass_moved
    rw [List.map_map, same]
    exact h.perm.map blankClass

/-- No field has to be assigned before it is read. -/
theorem Check.Mirrors.initialized {p : Program .bare} {t : ClassTable} (h : Mirrors false p t)
    (c : ClassId) : ∀ f ∈ t.fields c, f.initialized = true := by
  intro f hf
  rw [fields] at hf
  cases hk : t.get? c with
  | none =>
    rw [hk] at hf
    cases hf
  | some k =>
    rw [hk] at hf
    rcases h.get?_cases hk with ⟨rfl, _, _⟩ | ⟨before, d, _, _, _, mirrored⟩
    · obtain rfl := Option.some.inj (hk.symm.trans h.main)
      cases hf
    · have listed : f ∈ k.fields := hf
      rw [mirrored.fields] at listed
      obtain ⟨v, _, rfl⟩ := List.mem_map.mp listed
      rfl

/-- Classes that are found under their other numbers are all there are. -/
theorem perm_of_moved {σ : Equiv.Perm ClassId} {vs ws : List (ClassDecl .checked)}
    (distinct : (vs.map (·.name)).Nodup) (length : ws.length ≤ vs.length)
    (each : ∀ v ∈ vs, v.moved σ ∈ ws) : ws.Perm (vs.map (ClassDecl.moved σ)) := by
  have names : (vs.map (ClassDecl.moved σ)).map (·.name) = vs.map (·.name) := List.map_map
  have nodup : (vs.map (ClassDecl.moved σ)).Nodup := (names ▸ distinct).of_map
  have inside : (vs.map (ClassDecl.moved σ)).Subperm ws := by
    refine List.subperm_of_subset nodup fun w hw => ?_
    obtain ⟨v, hv, rfl⟩ := List.mem_map.mp hw
    exact each v hv
  exact (inside.perm_of_length_le (by rwa [List.length_map])).symm

/-- Without a limit an accepted program is accepted in another order. -/
theorem exists_renumbered_unlimited {p q : Program .bare} {c : Checked} (h : p.Reordered q)
    (accepted : (check ⟨none, false⟩ p).result = .ok c) :
    ∃ σ d, (check ⟨none, false⟩ q).result = .ok d ∧ Checked.Renumbered σ c d := by
  obtain ⟨_, known⟩ := exists_accepted unlimited_ne accepted
  obtain ⟨p', st, ready, clean, rfl⟩ := check_eq_ok_iff.mp accepted
  obtain ⟨σ, q', st', numbers, ready', renumbered⟩ := h.ready ready
  have before := ready_of_ready? unlimited_ne ready
  have before' := ready_of_ready? unlimited_ne ready'
  obtain ⟨mirrors, _⟩ := mirrors_of_ready? ready
  obtain ⟨main, classes⟩ := registered_of_ready? ready
  obtain ⟨main', classes'⟩ := registered_of_ready? ready'
  have quiet : st = .quiet st.table :=
    congrArg₂ (fun l fs => State.mk st.table ⟨l, fs⟩) before.limit before.clean
  have quiet' : st' = .quiet st'.table :=
    congrArg₂ (fun l fs => State.mk st'.table ⟨l, fs⟩) before'.limit before'.clean
  have twins : Twins σ st.table st'.table :=
    ⟨renumbered, before.wellFormed, before'.wellFormed, mirrors.initialized⟩
  have bare : (bodies p' st).1.classes.map ClassDecl.bare = p.classes :=
    congrArg Program.classes known.bare
  rw [Report.isClean_iff] at clean
  generalize st.table = t at quiet twins mirrors
  generalize st'.table = u at quiet' twins
  subst quiet quiet'
  obtain ⟨b, U', run, table, mains, each⟩ := bodies_reordered numbers twins mirrors.size
    (by rw [main', main, h.main]) classes classes' clean
  have accepted' : (check ⟨none, false⟩ q).result = .ok ⟨U', b⟩ :=
    check_eq_ok_iff.mpr ⟨q', _, ready', by rw [run]; rfl, by rw [run]; rfl⟩
  obtain ⟨_, known'⟩ := exists_accepted unlimited_ne accepted'
  have bare' : b.classes.map ClassDecl.bare = q.classes := congrArg Program.classes known'.bare
  refine ⟨σ, ⟨U', b⟩, accepted', table, mains, perm_of_moved ?_ ?_ fun v hv => ?_⟩
  · have names := (List.nodup_cons.mp numbers.distinct).2
    rw [← bare, List.map_map] at names
    exact names
  · have length := h.perm.length_eq
    rw [← bare, ← bare', List.length_map, List.length_map] at length
    exact Nat.le_of_eq length
  · obtain ⟨i, hi⟩ := List.getElem?_of_mem hv
    obtain ⟨_, _, there⟩ := each i v hi
    exact List.mem_of_getElem? there

theorem exists_renumbered {limit : Option Nat} {p q : Program .bare} {c : Checked}
    (h : p.Reordered q) (accepted : (check ⟨limit, false⟩ p).result = .ok c) :
    ∃ σ d, (check ⟨limit, false⟩ q).result = .ok d ∧ Checked.Renumbered σ c d := by
  by_cases zero : limit = some 0
  · subst zero
    rw [check_of_zero] at accepted
    obtain rfl := Except.ok.inj accepted
    exact ⟨_, _, by rw [check_of_zero], unreported_renumbered false h⟩
  · rw [result_eq false p zero] at accepted
    rw [result_eq false q zero]
    exact exists_renumbered_unlimited h accepted

/-- The layouts of two analysed programs with the same classes. -/
theorem layouts_renumbered {o : CheckOptions} {p q : Program .bare} {c d : Checked}
    {σ : Equiv.Perm ClassId} (accepted : (check o p).result = .ok c)
    (accepted' : (check o q).result = .ok d) (same : Checked.Renumbered σ c d) :
    ∃ t l u m, Layout.compute .parentPrefix c.table = (t, .ok l) ∧
      Layout.compute .parentPrefix d.table = (u, .ok m) ∧ ClassTable.Renumbered σ t u ∧
      l.length = t.size ∧ ∀ (k : ClassId) x, l[k]? = some x → m[σ k]? = some (x.moved σ) := by
  obtain ⟨wf, listed, agree⟩ := table_of_accepted accepted
  obtain ⟨wf', listed', agree'⟩ := table_of_accepted accepted'
  obtain ⟨l, computed, complete⟩ := Layout.compute_eq_ok wf listed agree .parentPrefix
  obtain ⟨m, computed', complete'⟩ := Layout.compute_eq_ok wf' listed' agree' .parentPrefix
  have laid := Layout.renumbered_assign same.table wf wf'
  refine ⟨_, l, _, m, computed, computed', laid, complete.length, fun k x hx => ?_⟩
  obtain ⟨hk, hof⟩ := Layout.ofClass_of_compute computed hx
  have forest : (Layout.assign .parentPrefix c.table).Forest :=
    (wf.of_sameOutline (Layout.sameDeclarations_assign wf _).outline.symm).forest
  have forest' : (Layout.assign .parentPrefix d.table).Forest :=
    (wf'.of_sameOutline (Layout.sameDeclarations_assign wf' _).outline.symm).forest
  have hof' := Layout.ofClass_moved laid forest forest' k
  rw [hof] at hof'
  obtain ⟨i, hi⟩ := get?_of_lt_size hk
  have there : (Layout.assign .parentPrefix d.table).get? (σ k) = some (i.moved σ) := by
    rw [laid.get?, hi, Option.map_some]
  obtain ⟨y, hm⟩ : ∃ y, m[σ k]? = some y :=
    ⟨_, List.getElem?_eq_getElem (complete'.length ▸ lt_size_of_get? there)⟩
  obtain ⟨_, hof''⟩ := Layout.ofClass_of_compute computed' hm
  rw [hof', Except.map, Except.ok.injEq] at hof''
  rw [hm, hof'']

/-- The order of the classes of an accepted program does not matter, as long as every superclass comes
first and fields need not be assigned before they are read. Whatever the limit for errors is, in
another order the program is accepted, with the same classes and the same notes but for the numbers
of the classes. With every class behind its parent they have the same offsets, slots, sizes and tables
of methods. -/
theorem check_reordered {o : CheckOptions} {p q : Program .bare} {c : Checked}
    (lenient : o.strict = false) (reordered : p.Reordered q)
    (accepted : (check o p).result = .ok c) :
    ∃ σ d, (check o q).result = .ok d ∧ Checked.Renumbered σ c d ∧
      ∃ t l u m, Layout.compute .parentPrefix c.table = (t, .ok l) ∧
        Layout.compute .parentPrefix d.table = (u, .ok m) ∧ ClassTable.Renumbered σ t u ∧
        l.length = t.size ∧ ∀ (k : ClassId) x, l[k]? = some x → ∃ y, m[σ k]? = some y ∧
          y.name = x.name ∧ y.objectSize = x.objectSize ∧ y.allocSize = x.allocSize ∧
          y.vtable.text = x.vtable.text := by
  obtain ⟨limit, _⟩ := o
  obtain rfl := lenient
  obtain ⟨σ, d, accepted', same⟩ := exists_renumbered reordered accepted
  obtain ⟨t, l, u, m, computed, computed', laid, length, each⟩ :=
    layouts_renumbered accepted accepted' same
  refine ⟨σ, d, accepted', same, t, l, u, m, computed, computed', laid, length, fun k x hx => ?_⟩
  exact ⟨_, each k x hx, rfl, rfl, rfl, VTable.text_moved σ x.vtable⟩

/-- The branch with `C` comes between `A` and `B`. -/
def turned : Program .bare :=
  { branches with classes := [0, 2, 1, 3].filterMap fun i : Nat => branches.classes[i]? }

theorem reordered_turned : branches.Reordered turned where
  main := rfl
  perm := .cons _ (.swap _ _ _)
  order := by decide

theorem check_reordered_turned :
    branches.Reordered turned ∧ ∃ c, (check {} branches).result = .ok c ∧
      ∃ σ d, (check {} turned).result = .ok d ∧ Checked.Renumbered σ c d ∧
        ∃ t l u m, Layout.compute .parentPrefix c.table = (t, .ok l) ∧
          Layout.compute .parentPrefix d.table = (u, .ok m) ∧ ClassTable.Renumbered σ t u ∧
          l.length = t.size ∧ ∀ (k : ClassId) x, l[k]? = some x → ∃ y, m[σ k]? = some y ∧
            y.name = x.name ∧ y.objectSize = x.objectSize ∧ y.allocSize = x.allocSize ∧
            y.vtable.text = x.vtable.text := by
  obtain ⟨c, accepted⟩ := exists_of_isOk (x := (check {} branches).result) (by decide +kernel)
  exact ⟨reordered_turned, c, accepted, check_reordered rfl reordered_turned accepted⟩

end MiniJava
