import MiniJava.Proofs.Reorder.Bodies
import MiniJava.Proofs.Reorder.Program

/-!
# The body pass in another order

The body pass checks the main class and then one class after the other. What it makes of a class does
not depend on the classes that were checked before it, so the classes of a program may be checked in
any order.
-/
namespace MiniJava.Check

open ClassTable

variable {σ : Equiv.Perm ClassId} {t u : ClassTable}

/-- From every table that has the classes of `u`, and no marks of the class yet, the class is checked
to `v`, but for the numbers, and is left as `k`; no other class is changed. -/
def Settles (σ : Equiv.Perm ClassId) (u : ClassTable) (c : ClassId) (d : ClassDecl .bare)
    (v : ClassDecl .checked) (k : Option Class) : Prop :=
  ∀ U, SameUnmarked U u → U.get? (σ c) = u.get? (σ c) →
    ∃ U', checkClass (numberedClass (σ c) d) (.quiet U) = (v.moved σ, .quiet U') ∧
      SameUnmarked U' u ∧ U'.get? (σ c) = k.map (Class.moved σ) ∧
      ∀ e, e ≠ σ c → U'.get? e = U.get? e

/-- A table that has the classes of `t` has those of `u` beside it. -/
theorem Twins.alongside (twins : Twins σ t u) {T U : ClassTable} {c : ClassId}
    (left : SameUnmarked T t) (right : SameUnmarked U u) (fresh : T.get? c = t.get? c)
    (fresh' : U.get? (σ c) = u.get? (σ c)) : Alongside σ t u T U c T U where
  left := left
  right := right
  own := by rw [fresh', fresh, twins.renumbered.get?]
  apart _ _ := rfl
  apart' _ _ := rfl

theorem bind_of_quiet {α β : Type} {x : CheckM α} {f : α → CheckM β} {T T' : ClassTable}
    (h : (x (.quiet T)).2 = .quiet T') :
    (x >>= f) (.quiet T) = f (x (.quiet T)).1 (.quiet T') := by
  rw [← h]
  rfl

theorem adds_checkClassBodies (twins : Twins σ t u) (ds : List (ClassDecl .bare)) :
    ∀ n, Adds (checkClassBodies (numberedFrom n ds)) := by
  induction ds with
  | nil => exact fun n st => ⟨[], rfl⟩
  | cons d ds ih =>
    intro n
    rw [numberedFrom_cons]
    have first : Parallel (Alongside σ t u t u n) (ClassDecl.moved σ)
        (checkClass (numberedClass n d)) (checkClass (numberedClass (σ n) d)) :=
      checkClass_parallel twins d
    exact first.adds.bind fun _ => (ih (n + 1)).bind fun _ st => ⟨[], rfl⟩

/-- What checking some classes one after the other has come to. -/
structure Passed (σ : Equiv.Perm ClassId) (t u T : ClassTable) (n : ClassId)
    (ds : List (ClassDecl .bare)) (vs : List (ClassDecl .checked)) (T' : ClassTable) : Prop where
  same : SameUnmarked T' t
  length : vs.length = ds.length
  before : ∀ e < n, T'.get? e = T.get? e
  settles : ∀ (i : Nat) d, ds[i]? = some d →
    ∃ v, vs[i]? = some v ∧ Settles σ u (n + i) d v (T'.get? (n + i))

/-- If nothing is reported of some classes, each of them settles in the other table. -/
theorem passed_of_clean (twins : Twins σ t u) (ds : List (ClassDecl .bare)) :
    ∀ n T, SameUnmarked T t → (∀ e, n ≤ e → T.get? e = t.get? e) →
      (checkClassBodies (numberedFrom n ds) (.quiet T)).2.report.findings = [] →
      Passed σ t u T n ds (checkClassBodies (numberedFrom n ds) (.quiet T)).1
        (checkClassBodies (numberedFrom n ds) (.quiet T)).2.table := by
  induction ds with
  | nil =>
    intro n T same _ _
    exact ⟨same, rfl, fun _ _ => rfl, fun i d hd => by cases hd⟩
  | cons d ds ih =>
    intro n T same fresh clean
    have parallel : ∀ U, Parallel (Alongside σ t u T U n) (ClassDecl.moved σ)
        (checkClass (numberedClass n d)) (checkClass (numberedClass (σ n) d)) :=
      fun U => checkClass_parallel twins d
    have fresh₁ : T.get? n = t.get? n := fresh n (Nat.le_refl n)
    rw [numberedFrom_cons, checkClassBodies] at clean ⊢
    have between := (parallel u).adds.quiet
      (fun _ => (adds_checkClassBodies twins ds (n + 1)).bind fun _ st => ⟨[], rfl⟩) clean
    have quiet : (checkClass (numberedClass n d) (.quiet T)).2.report.findings = [] :=
      between ▸ rfl
    have settles : Settles σ u n d (checkClass (numberedClass n d) (.quiet T)).1
        ((checkClass (numberedClass n d) (.quiet T)).2.table.get? n) := by
      intro U right fresh'
      obtain ⟨U', run, after⟩ :=
        (parallel U).run T U (twins.alongside same right fresh₁ fresh') quiet
      exact ⟨U', run, after.right, after.own, after.apart'⟩
    obtain ⟨_, _, after⟩ := (parallel u).run T u (twins.alongside same (.refl u) fresh₁ rfl) quiet
    rw [bind_of_quiet between] at clean ⊢
    generalize (checkClass (numberedClass n d) (.quiet T)).1 = v at *
    generalize (checkClass (numberedClass n d) (.quiet T)).2.table = T₁ at *
    have tail := ih (n + 1) T₁ after.left (fun e he => by
      rw [after.apart e (Nat.ne_of_gt he), fresh e (Nat.le_of_lt he)]) clean
    refine ⟨tail.same, congrArg (· + 1) tail.length, fun e he => ?_, fun i e he => ?_⟩
    · exact (tail.before e (Nat.lt_succ_of_lt he)).trans (after.apart e (Nat.ne_of_lt he))
    · cases i with
      | zero =>
        obtain rfl := Option.some.inj he
        refine ⟨v, rfl, ?_⟩
        rw [← tail.before n (Nat.lt_succ_self n)] at settles
        exact settles
      | succ i =>
        obtain ⟨w, hw, settled⟩ := tail.settles i e he
        rw [Nat.add_right_comm] at settled
        exact ⟨w, hw, settled⟩

/-- If each class has settled, nothing is reported of them one after the other. -/
theorem clean_of_settles (value : ClassId → Option (ClassDecl .checked))
    (final : ClassId → Option Class) (ds : List (ClassDecl .bare)) :
    ∀ m U, SameUnmarked U u → (∀ e, m ≤ e → U.get? e = u.get? e) →
      (∀ (j : Nat) d, ds[j]? = some d →
        ∃ c v, σ c = m + j ∧ value c = some v ∧ Settles σ u c d v (final c)) →
      ∃ vs U', checkClassBodies (numberedFrom m ds) (.quiet U) = (vs, .quiet U') ∧
        SameUnmarked U' u ∧ vs.length = ds.length ∧ (∀ e < m, U'.get? e = U.get? e) ∧
        ∀ (j : Nat) d, ds[j]? = some d → ∃ c v, σ c = m + j ∧ value c = some v ∧
          vs[j]? = some (v.moved σ) ∧ U'.get? (m + j) = (final c).map (Class.moved σ) := by
  induction ds with
  | nil =>
    intro m U same _ _
    exact ⟨[], U, rfl, same, rfl, fun _ _ => rfl, fun j d hd => by cases hd⟩
  | cons d ds ih =>
    intro m U same fresh settles
    obtain ⟨c, v, number, hv, settled⟩ := settles 0 d rfl
    rw [Nat.add_zero] at number
    obtain ⟨U₁, run, same₁, own, apart⟩ := settled U same (fresh _ (Nat.le_of_eq number.symm))
    rw [number] at run own apart
    obtain ⟨vs, U', rest, same', length, before, after⟩ := ih (m + 1) U₁ same₁
      (fun e he => by rw [apart e (Nat.ne_of_gt he), fresh e (Nat.le_of_lt he)])
      (fun j e he => by
        obtain ⟨c', v', number', found⟩ := settles (j + 1) e he
        exact ⟨c', v', by rw [number', Nat.add_right_comm]; rfl, found⟩)
    refine ⟨v.moved σ :: vs, U', ?_, same', congrArg (· + 1) length, fun e he => ?_,
      fun j e he => ?_⟩
    · rw [numberedFrom_cons, checkClassBodies, bind_of_quiet (congrArg Prod.snd run), run,
        bind_of_quiet (congrArg Prod.snd rest), rest]
      rfl
    · exact (before e (Nat.lt_succ_of_lt he)).trans (apart e (Nat.ne_of_lt he))
    · cases j with
      | zero =>
        refine ⟨c, v, number, hv, rfl, ?_⟩
        exact (before m (Nat.lt_succ_self m)).trans own
      | succ j =>
        obtain ⟨c', v', number', hv', there, table⟩ := after j e he
        rw [Nat.add_right_comm] at number' table
        exact ⟨c', v', number', hv', there, table⟩

theorem SameUnmarked.get?_eq_none {t u : ClassTable} (h : SameUnmarked t u) {c : ClassId}
    (hc : u.get? c = none) : t.get? c = none := by
  have same := h.get? c
  rw [hc] at same
  exact Option.map_eq_none_iff.mp same

section Orders
variable {p q : Program .bare} (h : p.Renumbers q σ)
include h

/-- The classes in one order, and then in another one. -/
theorem checkClassBodies_reordered {vs : List (ClassDecl .checked)} {T U T' : ClassTable}
    (passed : Passed σ t u T 1 p.classes vs T') (right : SameUnmarked U u)
    (fresh' : ∀ e, 1 ≤ e → U.get? e = u.get? e) :
    ∃ ws U', checkClassBodies (numberedFrom 1 q.classes) (.quiet U) = (ws, .quiet U') ∧
      SameUnmarked U' u ∧ U'.get? 0 = U.get? 0 ∧
      ∀ (i : Nat) d, p.classes[i]? = some d → ∃ j v, σ (i + 1) = j + 1 ∧ vs[i]? = some v ∧
        ws[j]? = some (v.moved σ) ∧ U'.get? (σ (i + 1)) = (T'.get? (i + 1)).map (Class.moved σ) := by
  have settled : ∀ (j : Nat) d, q.classes[j]? = some d →
      ∃ c v, σ c = 1 + j ∧ vs[c - 1]? = some v ∧ Settles σ u c d v (T'.get? c) := by
    intro j d hd
    obtain ⟨i, hi⟩ := List.getElem?_of_mem (h.reordered.mem_classes.mp (List.mem_of_getElem? hd))
    obtain ⟨j', number, hd'⟩ := h.getElem? hi
    have distinct : q.classes.Nodup := (List.nodup_cons.mp h.distinct').2.of_map
    obtain rfl : j = j' := (List.getElem?_inj (List.getElem?_eq_some_iff.mp hd).1 distinct).mp
      (hd.trans hd'.symm)
    obtain ⟨v, hv, settles⟩ := passed.settles i d hi
    rw [Nat.add_comm] at settles
    exact ⟨i + 1, v, by rw [number, Nat.add_comm], hv, settles⟩
  obtain ⟨ws, U', run, same', _, before, outcome⟩ :=
    clean_of_settles (fun c => vs[c - 1]?) T'.get? q.classes 1 U right fresh' settled
  refine ⟨ws, U', run, same', before 0 Nat.one_pos, fun i d hd => ?_⟩
  obtain ⟨j, number, hd'⟩ := h.getElem? hd
  obtain ⟨c, v, number', hv, hw, table⟩ := outcome j d hd'
  obtain rfl : i + 1 = c := σ.injective (by rw [number, number', Nat.add_comm])
  exact ⟨j, v, number, hv, hw, by rw [number, Nat.add_comm]; exact table⟩

/-- The tables that are left are the same but for the numbers, class by class. -/
theorem renumbered_of_passed (twins : Twins σ t u) (size : t.size = p.classes.length + 1)
    {T' U' : ClassTable} (same : SameUnmarked T' t) (same' : SameUnmarked U' u)
    (zero : U'.get? 0 = (T'.get? 0).map (Class.moved σ))
    (each : ∀ (i : Nat) d, p.classes[i]? = some d →
      U'.get? (σ (i + 1)) = (T'.get? (i + 1)).map (Class.moved σ)) : Renumbered σ T' U' := by
  refine ⟨fun c => ?_⟩
  cases c with
  | zero => rw [h.main, zero]
  | succ i =>
    cases hd : p.classes[i]? with
    | none =>
      have beyond : t.get? (i + 1) = none := by
        refine Array.getElem?_eq_none ?_
        exact Nat.le_trans (Nat.le_of_eq size) (Nat.succ_le_succ (List.getElem?_eq_none_iff.mp hd))
      have beyond' : u.get? (σ (i + 1)) = none := by
        rw [twins.renumbered.get?, beyond, Option.map_none]
      rw [SameUnmarked.get?_eq_none same beyond, SameUnmarked.get?_eq_none same' beyond',
        Option.map_none]
    | some d => exact each i d hd

/-- If nothing is reported of a program, nothing is reported of it in another order. The notes and the
marks that are left are the same but for the numbers. -/
theorem bodies_reordered (twins : Twins σ t u) (size : t.size = p.classes.length + 1)
    {p' q' : Program .registered} (main : q'.main = p'.main)
    (classes : p'.classes = numberedFrom 1 p.classes)
    (classes' : q'.classes = numberedFrom 1 q.classes)
    (clean : (bodies p' (.quiet t)).2.report.findings = []) :
    ∃ b U', bodies q' (.quiet u) = (b, .quiet U') ∧
      Renumbered σ (bodies p' (.quiet t)).2.table U' ∧
      b.main = (bodies p' (.quiet t)).1.main.moved σ ∧
      ∀ (i : Nat) v, (bodies p' (.quiet t)).1.classes[i]? = some v →
        ∃ j, σ (i + 1) = j + 1 ∧ b.classes[j]? = some (v.moved σ) := by
  unfold bodies at clean ⊢
  rw [classes] at clean ⊢
  rw [classes', main]
  have place : Place.moved σ ⟨0, none⟩ = ⟨0, none⟩ := congrArg (Place.mk · none) h.main
  have first : Parallel (Alongside σ t u t u 0) (movedBody σ)
      (checkStmts ⟨0, none⟩ p'.main.body) (checkStmts (Place.moved σ ⟨0, none⟩) p'.main.body) :=
    checkStmts_parallel twins .main p'.main.body
  rw [place] at first
  have between := first.adds.quiet
    (fun _ => (adds_checkClassBodies twins p.classes 1).bind fun _ st => ⟨[], rfl⟩) clean
  obtain ⟨U₁, run, after⟩ :=
    first.run t u (twins.alongside (.refl t) (.refl u) rfl rfl) (between ▸ rfl)
  have own := after.own
  have apart' := after.apart'
  rw [h.main] at own apart'
  rw [bind_of_quiet between] at clean ⊢
  rw [bind_of_quiet (congrArg Prod.snd run), run]
  generalize (checkStmts ⟨0, none⟩ p'.main.body (.quiet t)).1 = body at *
  generalize (checkStmts ⟨0, none⟩ p'.main.body (.quiet t)).2.table = T₁ at *
  have passed := passed_of_clean twins p.classes 1 T₁ after.left
    (fun e he => after.apart e (Nat.ne_of_gt he)) clean
  have between₁ := (adds_checkClassBodies twins p.classes 1).quiet (fun _ st => ⟨[], rfl⟩) clean
  rw [bind_of_quiet between₁]
  generalize (checkClassBodies (numberedFrom 1 p.classes) (.quiet T₁)).1 = vs at *
  generalize (checkClassBodies (numberedFrom 1 p.classes) (.quiet T₁)).2.table = T' at *
  obtain ⟨ws, U', rest, same', before, each⟩ := checkClassBodies_reordered h passed
    after.right fun e he => apart' e (Nat.ne_of_gt he)
  rw [bind_of_quiet (congrArg Prod.snd rest), rest]
  have zero : U'.get? 0 = (T'.get? 0).map (Class.moved σ) := by
    rw [before, own, passed.before 0 Nat.one_pos]
  refine ⟨_, U', rfl, ?_, rfl, fun i v hv => ?_⟩
  · refine renumbered_of_passed h twins size passed.same same' zero fun i d hd => ?_
    obtain ⟨_, _, _, _, _, table⟩ := each i d hd
    exact table
  · have hi : i < p.classes.length := passed.length ▸ (List.getElem?_eq_some_iff.mp hv).1
    obtain ⟨j, w, number, hw, there, _⟩ := each i _ (List.getElem?_eq_getElem hi)
    obtain rfl := Option.some.inj (hv.symm.trans hw)
    exact ⟨j, number, there⟩

end Orders

end MiniJava.Check
