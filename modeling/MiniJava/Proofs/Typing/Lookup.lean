import MiniJava.Proofs.Causes
import MiniJava.Proofs.Class.WellFormed
import MiniJava.Proofs.Typing.Rules

/-!
# Lookups decide the rules for names

While bodies are checked the class table changes its marks of initialization, which no rule reads.
So what is looked up in the table as it stands is compared with the rules over the table as it was
before the first body.
-/
namespace MiniJava.Typing

open ClassTable
open Check (Scope Place mem_checkInitialized)

section Table
variable {t : ClassTable}

theorem seesField_iff (forest : t.Forest) {c : ClassId} {x : Name} {r : FieldRef} :
    SeesField t c x r ↔ t.findField? c x = some r := by
  constructor
  · intro h
    induction h with
    | own hi => exact findField?_of_own hi
    | inherited hi hp _ ih => exact (forest.findField?_of_parent hp hi).trans ih
  · induction c using forest.induction with
    | top c hc =>
      intro hr
      cases hi : t.ownField? c x with
      | none =>
        rw [findField?_of_top hc hi] at hr
        cases hr
      | some i => exact Option.some.inj ((findField?_of_own hi).symm.trans hr) ▸ .own hi
    | child c p hp ih =>
      intro hr
      cases hi : t.ownField? c x with
      | none => exact .inherited hi hp (ih ((forest.findField?_of_parent hp hi).symm.trans hr))
      | some i => exact Option.some.inj ((findField?_of_own hi).symm.trans hr) ▸ .own hi

theorem seesMethod_iff (forest : t.Forest) {c : ClassId} {m : Name} {r : MethodRef} :
    SeesMethod t c m r ↔ t.findMethod? c m = some r := by
  constructor
  · intro h
    induction h with
    | own hi => exact findMethod?_of_own hi
    | inherited hi hp _ ih => exact (forest.findMethod?_of_parent hp hi).trans ih
  · induction c using forest.induction with
    | top c hc =>
      intro hr
      cases hi : t.ownMethod? c m with
      | none =>
        rw [findMethod?_of_top hc hi] at hr
        cases hr
      | some i => exact Option.some.inj ((findMethod?_of_own hi).symm.trans hr) ▸ .own hi
    | child c p hp ih =>
      intro hr
      cases hi : t.ownMethod? c m with
      | none => exact .inherited hi hp (ih ((forest.findMethod?_of_parent hp hi).symm.trans hr))
      | some i => exact Option.some.inj ((findMethod?_of_own hi).symm.trans hr) ▸ .own hi

theorem isSubclass_iff (forest : t.Forest) {sub sup : ClassId} :
    t.isSubclass sub sup = true ↔ t.Descends sub sup := by
  rw [isSubclass, List.contains_iff_mem, forest.mem_chain_iff]

theorem assignable_iff (forest : t.Forest) {target source : Ty} :
    t.assignable target source = true ↔ Assignable t target source := by
  constructor
  · intro h
    unfold assignable at h
    split at h
    · split at h
      · rename_i ha hb
        exact .widen ha hb ((isSubclass_iff forest).mp h)
      · exact (beq_iff_eq.mp h) ▸ .same _
    · exact (beq_iff_eq.mp h) ▸ .same _
  · intro h
    cases h with
    | same ty =>
      unfold assignable
      split
      · split
        · rename_i ha hb
          obtain rfl := Option.some.inj (ha.symm.trans hb)
          exact (isSubclass_iff forest).mpr (.self _)
        · exact beq_self_eq_true _
      · exact beq_self_eq_true _
    | widen ha hb hd =>
      simp only [assignable, ha, hb]
      exact (isSubclass_iff forest).mpr hd

end Table

/-- The same place, and a table with the same declarations. -/
structure Remarked (s s₀ : Scope) : Prop where
  table : SameDeclarations s.table s₀.table
  place : s.place = s₀.place

section Remarked
variable {s s₀ : Scope}

theorem Remarked.entry? (h : Remarked s s₀) :
    s.entry?.map EntryPoint.declared = s₀.entry?.map EntryPoint.declared := by
  rw [Scope.entry?, Scope.entry?, h.place]
  exact h.table.entry s₀.place.cls

theorem Remarked.locals (h : Remarked s s₀) :
    s.locals.map Local.declared = s₀.locals.map Local.declared := by
  rw [Scope.locals, Scope.locals, h.place]
  cases s₀.place.method with
  | none =>
    have he := congrArg (fun o => (Option.map EntryPoint.locals o).getD []) h.entry?
    cases hs : s.entry? <;> cases hs₀ : s₀.entry? <;> simp_all [EntryPoint.declared]
  | some m =>
    have hm := congrArg (fun o => (Option.map Method.locals o).getD []) (h.table.method? m)
    cases hs : s.table.method? m <;> cases hs₀ : s₀.table.method? m <;>
      simp_all [Method.declared]

theorem Remarked.isMainParam (h : Remarked s s₀) (x : Name) :
    s.isMainParam x = s₀.isMainParam x := by
  have he := congrArg (fun o => Option.any (·.param == x) o) h.entry?
  simp only [Option.any_map] at he
  rw [Scope.isMainParam, Scope.isMainParam, h.place]
  exact congrArg _ he

theorem Remarked.findIdx_locals (h : Remarked s s₀) (x : Name) :
    s.locals.findIdx? (·.name == x) = s₀.locals.findIdx? (·.name == x) := by
  have hl := congrArg (List.findIdx? (·.name == x)) h.locals
  simp only [List.findIdx?_map] at hl
  exact hl

theorem Remarked.localTy (h : Remarked s s₀) (i : Nat) :
    (s.locals[i]?).map (·.ty) = (s₀.locals[i]?).map (·.ty) := by
  have hl := congrArg (fun ls => (ls[i]?).map Local.ty) h.locals
  simp only [List.getElem?_map, Option.map_map] at hl
  exact hl

theorem Remarked.fieldTy (h : Remarked s s₀) (r : FieldRef) :
    (s.table.field? r).map (·.ty) = (s₀.table.field? r).map (·.ty) := by
  have hf := congrArg (Option.map Field.ty) (h.table.outline.field? r)
  simp only [Option.map_map] at hf
  exact hf

end Remarked

/-- A computation finds the value that satisfies a property, and finds fault if there is none. -/
structure Decides {α : Type} (x : Found (Option α)) (P : α → Prop) : Prop where
  value : ∀ a, x.value = some a ↔ P a
  clean : OnlyUninitialized x.findings ↔ x.value.isSome = true

theorem Decides.of_some {α : Type} {a : α} {P : α → Prop} (h : ∀ b, b = a ↔ P b) :
    Decides (.of (some a)) P :=
  ⟨fun b => by rw [← h b, Found.value_of, Option.some.injEq, eq_comm], by simp⟩

/-- A fault other than a variable that might not have been initialized. -/
def Fault (e : SemanticError) : Prop := ∀ x, e ≠ .uninitialized x

theorem Fault.not_uninitialized {e : SemanticError} (h : Fault e) (line : Nat) :
    ¬ OnlyUninitialized [⟨line, e⟩] := by
  intro hu
  obtain ⟨x, hx⟩ := onlyUninitialized_singleton.mp hu
  exact h x hx

theorem Decides.of_fault {α : Type} {line : Nat} {e : SemanticError} {P : α → Prop}
    (fault : Fault e) (h : ∀ a, ¬ P a) :
    Decides (do report line e; return none) P := by
  refine ⟨fun a => ⟨fun ha => (by cases ha), fun ha => absurd ha (h a)⟩, ?_⟩
  simp [fault.not_uninitialized line]

section Decisions
variable {s s₀ : Scope}

/-- A name of a local is that local. -/
theorem denotes_iff_of_local {s : Scope} {x : Name} {i : Nat} {l : Local}
    (hi : s.locals.findIdx? (·.name == x) = some i) (hl : s.locals[i]? = some l) {v : VarRef}
    {ty : Ty} : Denotes s x v ty ↔ v = .loc i ∧ ty = l.ty := by
  constructor
  · intro hd
    cases hd with
    | loc hj hl' =>
      obtain rfl := Option.some.inj (hi.symm.trans hj)
      obtain rfl := Option.some.inj (hl.symm.trans hl')
      exact ⟨rfl, rfl⟩
    | field hno =>
      obtain ⟨hlt, hname, _⟩ := List.findIdx?_eq_some_iff_getElem.mp hi
      exact absurd (beq_iff_eq.mp hname) (hno _ (List.getElem_mem hlt))
  · rintro ⟨rfl, rfl⟩
    exact .loc hi hl

/-- A name that no local has is the field that the class sees, if it is not the parameter. -/
theorem denotes_iff_of_no_local {s : Scope} (forest : s.table.Forest) {x : Name}
    (hi : s.locals.findIdx? (·.name == x) = none) {v : VarRef} {ty : Ty} :
    Denotes s x v ty ↔ s.isMainParam x = false ∧ ∃ r f,
      s.table.findField? s.place.cls x = some r ∧ s.table.field? r = some f ∧
        v = .field r ∧ ty = f.ty := by
  constructor
  · intro hd
    cases hd with
    | loc hj _ =>
      rw [hi] at hj
      cases hj
    | field _ hmain hs hf => exact ⟨hmain, _, _, (seesField_iff forest).mp hs, hf, rfl, rfl⟩
  · rintro ⟨hmain, r, f, hr, hf, rfl, rfl⟩
    refine .field (fun l hl heq => ?_) hmain ((seesField_iff forest).mpr hr) hf
    have hfalse := List.findIdx?_eq_none_iff.mp hi l hl
    simp [heq] at hfalse

theorem resolve_decides (forest : s₀.table.Forest) (h : Remarked s s₀) (line : Nat) (x : Name) :
    Decides (s.resolve line x) fun vt => Denotes s₀ x vt.1 vt.2 := by
  rw [Scope.resolve, h.findIdx_locals]
  cases hi : s₀.locals.findIdx? (·.name == x) with
  | some i =>
    obtain ⟨hlt, _⟩ := List.findIdx?_eq_some_iff_getElem.mp hi
    have hl : s₀.locals[i]? = some s₀.locals[i] := List.getElem?_eq_getElem hlt
    have hty : ((s.locals[i]?).map (·.ty)).getD .int = s₀.locals[i].ty := by
      rw [h.localTy, hl]
      rfl
    refine Decides.of_some fun vt => ?_
    rw [denotes_iff_of_local hi hl, ← hty]
    exact Prod.ext_iff
  | none =>
    simp only [h.isMainParam, denotes_iff_of_no_local forest hi]
    cases hmain : s₀.isMainParam x with
    | true => exact Decides.of_fault (by intro y; simp) fun vt hd => by cases hd.1
    | false =>
      have hfind : s.table.findField? s.place.cls x = s₀.table.findField? s₀.place.cls x := by
        rw [h.place]
        exact h.table.outline.findField? _ x
      simp only [hfind, Bool.false_eq_true, if_false]
      cases hr : s₀.table.findField? s₀.place.cls x with
      | some r =>
        obtain ⟨f, hf, _⟩ := exists_field_of_find hr
        have hty : ((s.table.field? r).map (·.ty)).getD .int = f.ty := by
          rw [h.fieldTy, hf]
          rfl
        refine Decides.of_some fun vt => ?_
        rw [hty, Prod.ext_iff]
        constructor
        · exact fun heq => ⟨trivial, r, f, rfl, hf, heq⟩
        · rintro ⟨_, q, g, hq, hg, heq⟩
          obtain rfl := Option.some.inj hq
          obtain rfl := Option.some.inj (hf.symm.trans hg)
          exact heq
      | none =>
        refine Decides.of_fault (by intro y; simp) ?_
        rintro vt ⟨_, r, _, hr', _⟩
        cases hr'

theorem checkInitialized_only (s : Scope) (line : Nat) (x : Name) (v : VarRef) :
    OnlyUninitialized (s.checkInitialized line x v).findings :=
  fun _ hf => ⟨x, congrArg Finding.error (mem_checkInitialized hf)⟩

theorem instantiate_decides (h : Remarked s s₀) (line : Nat) (cls : Name) :
    Decides (s.instantiate line cls) fun c =>
      s₀.table.find? cls = some c ∧ s₀.table.isMain c = false := by
  rw [Scope.instantiate, h.table.outline.find?]
  cases hc : s₀.table.find? cls with
  | none => exact Decides.of_fault (by intro y; simp) fun c hc' => by cases hc'.1
  | some c =>
    simp only [h.table.outline.isMain]
    cases hm : s₀.table.isMain c with
    | true =>
      refine Decides.of_fault (by intro y; simp) ?_
      rintro d ⟨hd, hd'⟩
      rw [← Option.some.inj hd, hm] at hd'
      cases hd'
    | false =>
      apply Decides.of_some
      intro d
      constructor
      · rintro rfl
        exact ⟨rfl, hm⟩
      · exact fun hd => (Option.some.inj hd.1).symm

/-- The method that a message to a value of a type calls. -/
def Calls (s : Scope) (ty : Ty) (m : Name) (r : MethodRef) : Prop :=
  ∃ cls c, ty = .object cls ∧ s.table.find? cls = some c ∧ SeesMethod s.table c m r

/-- A message to a value of an object type calls the method that the class sees. -/
theorem calls_iff (forest : s₀.table.Forest) {cls : Name} {c : ClassId}
    (hc : s₀.table.find? cls = some c) {m : Name} {r : MethodRef} :
    Calls s₀ (.object cls) m r ↔ s₀.table.findMethod? c m = some r := by
  rw [← seesMethod_iff forest]
  constructor
  · rintro ⟨cls', c', hty, hc', hs⟩
    obtain rfl := Ty.object.inj hty
    exact Option.some.inj (hc.symm.trans hc') ▸ hs
  · exact fun hs => ⟨cls, c, rfl, hc, hs⟩

theorem Calls.unique (forest : s₀.table.Forest) {ty : Ty} {m : Name} {r q : MethodRef}
    (hr : Calls s₀ ty m r) (hq : Calls s₀ ty m q) : r = q := by
  obtain ⟨cls, c, rfl, hc, _⟩ := id hr
  rw [calls_iff forest hc] at hr hq
  exact Option.some.inj (hr.symm.trans hq)

theorem callee_decides (forest : s₀.table.Forest) (h : Remarked s s₀) (line : Nat) (ty : Ty)
    (m : Name) :
    Decides (s.callee line ty m) fun rk =>
      Calls s₀ ty m rk.1 ∧ s.table.method? rk.1 = some rk.2 := by
  have hcls : ty.className?.bind s.table.find? = ty.className?.bind s₀.table.find? :=
    congrArg _ (funext h.table.outline.find?)
  rw [Scope.callee, hcls]
  cases hc : ty.className?.bind s₀.table.find? with
  | none =>
    refine Decides.of_fault (by intro y; simp) ?_
    rintro ⟨r, k⟩ ⟨⟨cls, c, rfl, hfind, _⟩, _⟩
    rw [Ty.className?, Option.bind_some, hfind] at hc
    cases hc
  | some c =>
    obtain ⟨cls, hname, hfind⟩ := Option.bind_eq_some_iff.mp hc
    obtain rfl : ty = .object cls := by
      cases ty with
      | object n => exact congrArg Ty.object (Option.some.inj hname)
      | _ => cases hname
    simp only [h.table.outline.findMethod?, calls_iff forest hfind]
    cases hr : s₀.table.findMethod? c m with
    | none =>
      refine Decides.of_fault (by intro y; simp) ?_
      rintro rk ⟨hcalls, _⟩
      cases hcalls
    | some r =>
      obtain ⟨k₀, hk₀, _⟩ := exists_method_of_find hr
      obtain ⟨k, hk, _⟩ := h.table.symm.exists_method? hk₀
      simp only [hk, Option.map_some]
      apply Decides.of_some
      rintro ⟨q, l⟩
      constructor
      · intro heq
        obtain ⟨rfl, rfl⟩ := Prod.mk.inj heq
        exact ⟨rfl, hk⟩
      · rintro ⟨hq, hl⟩
        obtain rfl := Option.some.inj hq
        rw [Option.some.inj (hk.symm.trans hl)]

theorem Remarked.assignable_iff (forest : s₀.table.Forest) (h : Remarked s s₀)
    (target source : Ty) :
    s.table.assignable target source = true ↔ Assignable s₀.table target source := by
  rw [h.table.outline.assignable, Typing.assignable_iff forest]

end Decisions

end MiniJava.Typing
