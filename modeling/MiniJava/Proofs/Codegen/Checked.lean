import MiniJava.Compile
import MiniJava.Proofs.Codegen.Total
import MiniJava.Proofs.Dispatch

/-!
# Checked programs are generated

What analysis records is what code generation asks for. A derivation of the type of an expression
says what the expression refers to, the layout has given an offset to every field and a slot to
every method, and neither the marks of the body pass nor the layout change a declaration.
-/
namespace MiniJava

open Check ClassTable

namespace Codegen

open Typing (Denotes NoteFits ItemRecorded)

/-- The code of a body is generated from the declarations that the body was checked with. -/
structure Serves (c : Env) (s : Scope) : Prop where
  wellFormed : s.table.WellFormed
  same : SameDeclarations c.table s.table
  offsets : ∀ r f, c.table.field? r = some f → f.offset.isSome = true
  complete : Layout.Complete c.table c.layout
  locals : c.locals.length = s.locals.length

section Serves
variable {c : Env} {s : Scope}

theorem Serves.var (h : Serves c s) {x : Name} {v : VarRef} {ty : Ty} (hv : Denotes s x v ty) :
    VarUsable c v := by
  cases hv with
  | loc _ hl =>
    obtain ⟨hlt, _⟩ := List.getElem?_eq_some_iff.mp hl
    exact Nat.lt_of_lt_of_eq hlt h.locals.symm
  | field _ _ _ hf =>
    obtain ⟨f, hf, _⟩ := h.same.symm.outline.exists_field? hf
    exact ⟨f, hf, h.offsets _ f hf⟩

theorem Serves.class_lt (h : Serves c s) {cls : Name} {id : ClassId}
    (hid : s.table.find? cls = some id) : id < c.layout.length := by
  obtain ⟨k, hk, _⟩ := h.wellFormed.find?_eq_some_iff.mp hid
  rw [h.complete.length, h.same.outline.size]
  exact lt_size_of_get? hk

/-- A method that is called has a slot. -/
theorem Serves.method (h : Serves c s) {ty : Ty} {m : Name} {r : MethodRef} {k : Method}
    (calls : Typing.Calls s ty m r) (hk : s.table.method? r = some k) :
    ∃ l, c.table.method? r = some l ∧ l.slot?.isSome = true ∧ l.paramTys = k.paramTys := by
  obtain ⟨cls, id, _, hid, sees⟩ := calls
  have found : c.table.findMethod? id m = some r :=
    (h.same.outline.findMethod? id m).trans ((Typing.seesMethod_iff h.wellFormed.forest).mp sees)
  have hlt := h.class_lt hid
  obtain ⟨_, dispatches⟩ := h.complete.classes id _ (List.getElem?_eq_getElem hlt)
  obtain ⟨l, slot, _, hl, hslot, _⟩ := dispatches.nearest id (mem_chain_self _ id) m r found
  obtain ⟨k', hk', declared⟩ := h.same.exists_method? hl
  obtain rfl := Option.some.inj (hk.symm.trans hk')
  exact ⟨l, hl, by rw [hslot]; rfl, (Method.paramTys_eq_of_declared declared).symm⟩

theorem Serves.expr (h : Serves c s) {e : Expr Note} (fits : NoteFits s e) : ExprUsable c e := by
  obtain ⟨line, note, form⟩ := e
  obtain ⟨i, hi, derives⟩ := fits
  have typed : Typing.HasType s (.node line () form.bare) i := (derives i).mpr rfl
  refine ⟨i, hi, ?_⟩
  cases form with
  | name x =>
    obtain ⟨v, ty, hv, rfl⟩ := Typing.hasType_name.mp typed
    exact ⟨v, rfl, h.var hv⟩
  | send e m args =>
    rw [ExprForm.bare_send] at typed
    obtain ⟨ty, q, r, k, _, calls, hk, fit, rfl⟩ := Typing.hasType_send.mp typed
    obtain ⟨l, hl, slot, paramTys⟩ := h.method calls hk
    refine ⟨r, l, rfl, hl, slot, ?_⟩
    rw [paramTys, fit.length_eq, List.length_map]
  | newObject cls =>
    obtain ⟨id, ⟨hid, _⟩, rfl⟩ := Typing.hasType_newObject.mp typed
    exact ⟨id, rfl, h.class_lt hid⟩
  | _ => exact trivial

theorem Serves.item (h : Serves c s) {x : Item Note Target} (recorded : ItemRecorded s x) :
    ItemUsable c x := by
  cases x with
  | expr e => exact h.expr recorded
  | target x note =>
    obtain ⟨v, ty, rfl, hv, _⟩ := recorded
    exact ⟨v, rfl, h.var hv⟩

end Serves

section Main
variable {p : Program .bare} {c : Checked} {t u : ClassTable} (known : Check.Accepted p c t)
include known

theorem locals_mainScope :
    (Typing.mainScope t).locals = p.main.vars.map (Check.localOf false) := by
  change (((t.get? 0).bind (·.entry)).map (·.locals)).getD [] = _
  rw [known.entry]
  rfl

theorem declared_mainLocals (same : SameDeclarations u t) :
    (mainLocals u).map Local.declared = p.main.vars.map (Check.localOf false) := by
  have remarked := (Typing.remarked same ⟨0, none⟩).locals
  change (mainLocals u).map Local.declared =
    (Typing.mainScope t).locals.map Local.declared at remarked
  rw [remarked, locals_mainScope known, List.map_map]
  rfl

end Main

end Codegen

/-- A class table before the bodies, and the same declarations once they are laid out. -/
structure Layout.Prepared (t u : ClassTable) (layout : Layout) : Prop where
  wellFormed : t.WellFormed
  same : SameDeclarations u t
  offsets : ∀ r f, u.field? r = some f → f.offset.isSome = true
  complete : Layout.Complete u layout
  named : layout.map (·.name) = u.names

section Prepared
variable {t u : ClassTable} {layout : Layout}

theorem Layout.Prepared.declared (h : Prepared t u layout) (place : Place) :
    (Scope.locals ⟨u, place⟩).map Local.declared = (Scope.locals ⟨t, place⟩).map Local.declared :=
  (Typing.remarked h.same place).locals

theorem Layout.Prepared.serves (h : Prepared t u layout) (scope : String) (place : Place) :
    Codegen.Serves ⟨u, layout, scope, Scope.locals ⟨u, place⟩⟩ ⟨t, place⟩ where
  wellFormed := h.wellFormed
  same := h.same
  offsets := h.offsets
  complete := h.complete
  locals := by
    have length := congrArg List.length (h.declared place)
    rwa [List.length_map, List.length_map] at length

/-- No two classes of a layout have one name. -/
theorem Layout.Prepared.names_nodup (h : Prepared t u layout) : (layout.map (·.name)).Nodup := by
  rw [h.named, h.same.outline.names]
  exact h.wellFormed.names_nodup

theorem locals_of_method? {r : MethodRef} {m : Method} (hm : u.method? r = some m) :
    Scope.locals ⟨u, r.cls, some r⟩ = m.locals := by
  change ((u.method? r).map (·.locals)).getD [] = m.locals
  rw [hm]
  rfl

/-- An accepted program is usable once it is laid out. -/
theorem Check.Accepted.usable {p : Program .bare} {c : Checked} (known : Accepted p c t)
    (h : Layout.Prepared t u layout) : Codegen.ProgramUsable u layout c.program := by
  refine ⟨?_, ?_⟩
  · intro scope x hx
    exact (h.serves scope ⟨0, none⟩).item (known.recorded.main x hx)
  · intro d hd
    obtain ⟨⟨id, note, hid⟩, methods⟩ := known.recorded.classes d hd
    obtain ⟨k, hk, _⟩ := known.wellFormed.find?_eq_some_iff.mp hid
    refine ⟨⟨id, note, ?_⟩, ?_⟩
    · rw [h.same.outline.size]
      exact lt_size_of_get? hk
    · intro m hm
      obtain ⟨r, note, declared, items⟩ := methods m hm
      obtain ⟨k, hk, _⟩ := exists_method_of_own declared.2
      obtain ⟨l, hl, _⟩ := h.same.symm.exists_method? hk
      refine ⟨r, l, note, hl, fun scope x hx => ?_⟩
      rw [← locals_of_method? hl]
      exact (h.serves scope ⟨r.cls, some r⟩).item (items x hx)

end Prepared

theorem Check.Accepted.prepared {p : Program .bare} {c : Checked} {t : ClassTable}
    (known : Accepted p c t) (s : Layout.Strategy) :
    ∃ u layout, Layout.compute s c.table = (u, .ok layout) ∧ Layout.Prepared t u layout := by
  obtain ⟨layout, computed, same, complete⟩ := known.layout s
  have wf : c.table.WellFormed := known.wellFormed.of_sameOutline known.same.outline.symm
  exact ⟨_, layout, computed, known.wellFormed, same.trans known.same,
    fun _ _ hf => Layout.offset_assign wf s hf, complete, Layout.names_of_compute computed⟩

/-- An accepted program is laid out and generated without a fault, whatever sink takes the text. -/
theorem checked_generates {o : CheckOptions} (positive : o.maxErrors ≠ some 0) {p : Program .bare}
    {c : Checked} (accepted : (check o p).result = .ok c) (s : Layout.Strategy) :
    ∃ t layout, Layout.compute s c.table = (t, .ok layout) ∧
      Codegen.ProgramUsable t layout c.program ∧
      (Codegen.generate t layout c.program).2 = none ∧
      ∀ sink : Sink, sink.accepts (Codegen.generate t layout c.program).1.text = true →
        (Analysis.generate ⟨t, c.program, layout⟩ sink).result = .ok () := by
  obtain ⟨_, known⟩ := exists_accepted positive accepted
  obtain ⟨t, layout, computed, prepared⟩ := known.prepared s
  have usable := known.usable prepared
  refine ⟨t, layout, computed, usable, usable.generate, fun sink accepts => ?_⟩
  simp only [Analysis.generate, Sink.write, accepts, usable.generate, if_true]

theorem checked_generates_branches :
    ∃ c, (check {} branches).result = .ok c ∧
      ∃ t layout, Layout.compute .parentPrefix c.table = (t, .ok layout) ∧
        Codegen.ProgramUsable t layout c.program ∧
        (Codegen.generate t layout c.program).2 = none ∧
        ∀ sink : Sink, sink.accepts (Codegen.generate t layout c.program).1.text = true →
          (Analysis.generate ⟨t, c.program, layout⟩ sink).result = .ok () := by
  obtain ⟨c, accepted⟩ := exists_of_isOk (x := (check {} branches).result) (by decide +kernel)
  exact ⟨c, accepted, checked_generates (by decide) accepted .parentPrefix⟩

end MiniJava
