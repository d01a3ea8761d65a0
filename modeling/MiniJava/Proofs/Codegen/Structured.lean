import MiniJava.Proofs.Codegen.Body
import MiniJava.Proofs.Codegen.Functions

/-!
# Structured functions are generated

Every function of an accepted program reserves the slots of its locals, and what follows is a
region: the stores of the parameters, the statements and the value that is returned. The globals, the
parameters and the slots that it uses all have different names.
-/
namespace MiniJava

open IR ClassTable

namespace Codegen

open Check (Scope)
open Typing (ItemRecorded)

/-- The slots of the locals, with the types of what they hold. -/
def Env.slots (c : Env) : Names := c.locals.map fun x => (c.slot x, x.ty.ir)

/-- What a function may use when its slots have been reserved. -/
def Source.names (s : Source) : Names :=
  s.header.names (globals s.env.layout) ++ declared (reserve s.env.slots)

theorem reserve_slots (c : Env) : reserve c.slots = allocas c c.locals := by
  rw [reserve, Env.slots, List.map_map]
  rfl

theorem mem_declared_slots {c : Env} {x : Local} (hx : x ∈ c.locals) :
    (c.slot x, .ptr x.ty.ir) ∈ declared (reserve c.slots) := by
  rw [declared_reserve, Env.slots, List.map_map]
  exact List.mem_map_of_mem (f := fun x : Local => (c.slot x, IRType.ptr x.ty.ir)) hx

theorem mem_names_of_param {s : Source} {ty : IRType} {v : Value} (h : (ty, v) ∈ s.header.params) :
    (v, ty) ∈ s.names :=
  List.mem_append_left _ (List.mem_append_right _ (List.mem_map_of_mem (f := Prod.swap) h))

/-- The parameters of a function and its locals, each with a name of its own. -/
structure Framed (h : Header) (c : Env) : Prop where
  params : (h.params.map Prod.snd).Nodup
  named : ∀ a ∈ h.params, a.2 = .this ∨ ∃ x, a.2 = .param x
  locals : (c.locals.map (·.name)).Nodup

section Framed
variable {s : Source}

theorem slot_of_mem {c : Env} {x : Value × IRType} (hx : x ∈ declared (reserve c.slots)) :
    ∃ n, x.1 = .slot n := by
  rw [declared_reserve, Env.slots, List.map_map] at hx
  obtain ⟨y, _, rfl⟩ := List.mem_map.mp hx
  exact ⟨_, rfl⟩

theorem Framed.named_of_mem (h : Framed s.header s.env) {x : Value × IRType}
    (hx : x ∈ s.header.params.map Prod.swap) : x.1 = .this ∨ ∃ n, x.1 = .param n := by
  obtain ⟨a, ha, rfl⟩ := List.mem_map.mp hx
  exact h.named a ha

/-- The parameters of a method are some of its locals. -/
theorem Framed.method {t : ClassTable} {l : Layout} {scope : String} {m : Method}
    (distinct : (m.locals.map (·.name)).Nodup) :
    Framed (methodHeader t m) ⟨t, l, scope, m.locals⟩ where
  params := by
    have params : (m.params.map (·.name)).Nodup :=
      distinct.sublist ((List.take_sublist _ _).map _)
    have keys : (methodHeader t m).params.map Prod.snd =
        .this :: (m.params.map (·.name)).map .param := by
      rw [methodHeader, List.map_cons, List.map_map, List.map_map]
      rfl
    rw [keys, List.nodup_cons]
    exact ⟨by simp, params.map fun _ _ same => Value.param.inj same⟩
  named := List.forall_mem_cons.mpr ⟨Or.inl rfl, List.forall_mem_map.mpr fun x _ => Or.inr ⟨_, rfl⟩⟩
  locals := distinct

theorem Framed.distinct (h : Framed s.header s.env)
    (classes : (s.env.layout.map (·.name)).Nodup) : (s.names.map Prod.fst).Nodup := by
  have params : ((s.header.params.map Prod.swap).map Prod.fst).Nodup := by
    rw [List.map_map]
    exact h.params
  have slots : ((declared (reserve s.env.slots)).map Prod.fst).Nodup := by
    have keys : (declared (reserve s.env.slots)).map Prod.fst =
        (s.env.locals.map (·.name)).map fun n => .slot (s.env.scope ++ "_" ++ n) := by
      rw [declared_reserve, Env.slots, List.map_map, List.map_map, List.map_map]
      rfl
    rw [keys]
    exact h.locals.map fun _ _ same => (String.append_right_inj _).mp (Value.slot.inj same)
  rw [Source.names, Header.names, List.append_assoc, List.map_append, List.map_append]
  refine List.nodup_append.mpr ⟨globals_nodup classes,
    List.nodup_append.mpr ⟨params, slots, ?_⟩, ?_⟩
  · intro v hv w hw same
    obtain ⟨x, hx, rfl⟩ := List.mem_map.mp hv
    obtain ⟨y, hy, rfl⟩ := List.mem_map.mp hw
    obtain ⟨n, slot⟩ := slot_of_mem hy
    rcases h.named_of_mem hx with this | ⟨m, param⟩
    · cases this.symm.trans (same.trans slot)
    · cases param.symm.trans (same.trans slot)
  · intro v hv w hw same
    obtain ⟨x, hx, rfl⟩ := List.mem_map.mp hv
    obtain ⟨n, global⟩ := global_of_mem hx
    rcases List.mem_append.mp hw with hw | hw
    · obtain ⟨y, hy, rfl⟩ := List.mem_map.mp hw
      rcases h.named_of_mem hy with this | ⟨m, param⟩
      · cases global.symm.trans (same.trans this)
      · cases global.symm.trans (same.trans param)
    · obtain ⟨y, hy, rfl⟩ := List.mem_map.mp hw
      obtain ⟨m, slot⟩ := slot_of_mem hy
      cases global.symm.trans (same.trans slot)

theorem Framed.lasting (h : Framed s.header s.env) : ∀ x ∈ s.names, ∀ n, x.1 ≠ .temp n := by
  intro x hx n temp
  rcases List.mem_append.mp hx with hx | hx
  · rcases List.mem_append.mp hx with hx | hx
    · obtain ⟨m, global⟩ := global_of_mem hx
      cases global.symm.trans temp
    · rcases h.named_of_mem hx with this | ⟨m, param⟩
      · cases this.symm.trans temp
      · cases param.symm.trans temp
  · obtain ⟨m, slot⟩ := slot_of_mem hx
    cases slot.symm.trans temp

end Framed

theorem storeParams_runs {c : Env} {known : Names} (params : List Local)
    (values : ∀ x ∈ params, (.param x.name, x.ty.ir) ∈ known)
    (slots : ∀ x ∈ params, (c.slot x, .ptr x.ty.ir) ∈ known) :
    Runs known (storeParams c params) := by
  induction params generalizing known with
  | nil => exact .of trivial
  | cons x params ih =>
    obtain ⟨value, values⟩ := List.forall_mem_cons.mp values
    obtain ⟨slot, slots⟩ := List.forall_mem_cons.mp slots
    exact Runs.bind (.store (.named value) (.named slot)) fun known₁ sub =>
      ih (fun y hy => sub (values y hy)) fun y hy => sub (slots y hy)

/-- A source whose code stores the parameters, does something and returns a value. -/
structure Returning (s : Source) (params : List Local) (value : Gen Value) : Prop where
  code : s.code = do
    genSlots s.env params
    let v ← value
    emit (.ret s.header.result v)
  stores : Runs s.names (storeParams s.env params)
  yields : ∀ known, s.names ⊆ known → Yields known value s.header.result

/-- What a source that returns a value becomes. -/
theorem Returning.structured {s : Source} {params : List Local} {value : Gen Value}
    (h : Returning s params value) (frame : Framed s.header s.env)
    (classes : (s.env.layout.map (·.name)).Nodup) (n : LabelCounters) :
    ∃ code q v, s.function n = ⟨s.header, structuredBody s.header s.env.slots code v, true⟩ ∧
      Structured (globals s.env.layout) s.header s.env.slots code q v := by
  have yields : Yields s.names (storeParams s.env params >>= fun _ => value) s.header.result :=
    Runs.bind h.stores h.yields
  obtain ⟨v, known, hv, region, typed⟩ := yields { labels := n }
  refine ⟨_, _, v, ?_, ⟨region, typed, frame.distinct classes, frame.lasting⟩⟩
  have code : s.code { labels := n } = (do
      startBlock .entry
      allocate s.env s.env.locals
      let v ← storeParams s.env params >>= fun _ => value
      emit (.ret s.header.result v)) { labels := n } := by
    rw [h.code, genSlots]
    simp only [bind_assoc]
  rw [Source.function, code, startBlock_bind, bind_eq (congrArg Emitted.result (allocate_eq _ _ _)),
    allocate_eq, bind_eq hv, structuredBody, wholeBody, reserve_slots, List.append_assoc]
  rfl

/-- A source whose body was checked in a scope. -/
structure Source.Checked (s : Source) (sc : Scope) : Prop where
  frame : Framed s.header s.env
  provides : Provides s.env sc s.names
  recorded : ∀ x ∈ s.items, ItemRecorded sc x
  returning : ∃ params value, Returning s params value

end Codegen

open Codegen Check

section Prepared
variable {t u : ClassTable} {layout : Layout}

/-- `main` sees no fields. -/
theorem ClassTable.WellFormed.not_denotes_field (wf : t.WellFormed) {x : Name} {r : FieldRef}
    {ty : Ty} : ¬ Typing.Denotes (Typing.mainScope t) x (.field r) ty := by
  intro denotes
  cases denotes with
  | field _ _ sees hf =>
    have main : t.isMain r.cls = true := by
      rw [wf.isMain_iff]
      cases sees with
      | own _ => rfl
      | inherited _ parent _ => exact absurd (wf.main_top.symm.trans parent) (by simp)
    rw [wf.not_main_of_field? hf] at main
    cases main

theorem Layout.Prepared.provides (h : Prepared t u layout) (scope : String) (place : Place)
    {names : Names} (globals : IR.globals layout ⊆ names)
    (slots : IR.declared (reserve (Env.slots ⟨u, layout, scope, Scope.locals ⟨u, place⟩⟩)) ⊆ names)
    (method : place.method.isSome = true → (.this, .bytes) ∈ names)
    (field : ∀ {x r ty}, Typing.Denotes ⟨t, place⟩ x (.field r) ty → (.this, .bytes) ∈ names) :
    Provides ⟨u, layout, scope, Scope.locals ⟨u, place⟩⟩ ⟨t, place⟩ names where
  serves := h.serves scope place
  localTys := by
    have tys := congrArg (List.map Local.ty) (h.declared place)
    rwa [List.map_map, List.map_map] at tys
  globals := globals
  slots := fun x hx => slots (mem_declared_slots hx)
  method := method
  field := field

end Prepared

section Accepted
variable {p : Program .bare} {c : Checked} {t u : ClassTable} {layout : Layout}
  (known : Accepted p c t) (h : Layout.Prepared t u layout)
include known h

theorem Check.Accepted.main_checked :
    (Source.ofMain u layout c.program).Checked (Typing.mainScope t) := by
  have frame : Framed mainHeader (Source.ofMain u layout c.program).env := by
    refine ⟨.nil, nofun, ?_⟩
    have names := congrArg (List.map Local.name) (declared_mainLocals known h.same)
    rw [List.map_map, List.map_map] at names
    exact names ▸ known.locals_nodup
  have provides : Provides (Source.ofMain u layout c.program).env (Typing.mainScope t)
      (Source.ofMain u layout c.program).names := by
    refine h.provides _ ⟨0, none⟩ ?_ (List.subset_append_right _ _) nofun fun denotes => ?_
    · exact List.Subset.trans (List.subset_append_left _ _) (List.subset_append_left _ _)
    · exact absurd denotes h.wellFormed.not_denotes_field
  refine ⟨frame, provides, known.recorded.main, [], (do
    genStmts (Source.ofMain u layout c.program).env c.program.main.body
    return .int 0), ?_, .of trivial, fun names sub => ?_⟩
  · change mainBody _ _ = _
    rw [mainBody]
    simp only [Codegen.bind_assoc]
    rfl
  · refine Runs.bind (genStmts_runs provides _ sub known.recorded.main ?_) fun _ _ => .pure (.int 0)
    rw [← known.bare] at *
    exact known.typed.main

omit h in
/-- The body and the result of a method are typed in the scope that it was checked in. -/
theorem Check.Accepted.method_typed {d : ClassDecl .checked} (hd : d ∈ c.program.classes)
    {k : MethodDecl .checked} (hk : k ∈ d.methods) {r : MethodRef} (hr : k.note = some r) :
    (∀ x ∈ k.items, Typing.ItemRecorded (Typing.methodScope t r) x) ∧
      Typing.BodyTyped (Typing.methodScope t r) (k.body.map Stmt.bare) ∧
      Typing.ResultFits t r k.result.bare := by
  obtain ⟨r', hr', declared, recorded⟩ := (known.recorded.classes d hd).methods k hk
  obtain rfl := Option.some.inj (hr.symm.trans hr')
  have typed := known.typed.methods
  rw [← known.bare] at typed
  obtain ⟨q, declared', body, result⟩ :=
    typed d.bare (List.mem_map_of_mem hd) k.bare (List.mem_map_of_mem hk)
  obtain rfl := declared.unique declared'
  exact ⟨recorded, body, result⟩

theorem Check.Accepted.method_checked {d : ClassDecl .checked} (hd : d ∈ c.program.classes)
    {k : MethodDecl .checked} (hk : k ∈ d.methods) {r : MethodRef} (hr : k.note = some r)
    {m : Method} (hm : u.method? r = some m) (cls : Name) :
    (Source.ofMethod u layout cls m k).Checked (Typing.methodScope t r) := by
  obtain ⟨recorded, body, result⟩ := known.method_typed hd hk hr
  obtain ⟨recordedBody, recordedResult⟩ := List.forall_mem_append.mp recorded
  obtain ⟨_, distinct⟩ := known.locals.of_sameDeclarations h.same.symm r.cls m
    (mem_methods_of_method? hm)
  have this : (.this, .bytes) ∈ (Source.ofMethod u layout cls m k).names :=
    mem_names_of_param List.mem_cons_self
  have slots : declared (reserve (Source.ofMethod u layout cls m k).env.slots) ⊆
      (Source.ofMethod u layout cls m k).names := List.subset_append_right _ _
  have env : (Source.ofMethod u layout cls m k).env =
      ⟨u, layout, cls ++ "_" ++ m.name, Scope.locals ⟨u, r.cls, some r⟩⟩ := by
    rw [locals_of_method? hm]
    rfl
  have provides : Provides (Source.ofMethod u layout cls m k).env (Typing.methodScope t r)
      (Source.ofMethod u layout cls m k).names := by
    rw [env] at slots ⊢
    refine h.provides _ _ ?_ slots (fun _ => this) fun _ => this
    exact List.Subset.trans (List.subset_append_left _ _) (List.subset_append_left _ _)
  refine ⟨.method distinct, provides, recorded, m.params, (do
    genStmts (Source.ofMethod u layout cls m k).env k.body
    genExpr (Source.ofMethod u layout cls m k).env k.result), ?_, ?_, fun names sub => ?_⟩
  · change methodBody _ _ _ _ = _
    rw [methodBody]
    simp only [Codegen.bind_assoc]
    rfl
  · refine storeParams_runs m.params (fun x hx => mem_names_of_param ?_) fun x hx => ?_
    · exact List.mem_cons_of_mem _ (List.mem_map_of_mem (f := fun x : Local =>
        (x.ty.ir, Value.param x.name)) hx)
    · exact slots (mem_declared_slots (List.mem_of_mem_take hx))
  · refine Runs.bind (genStmts_runs provides _ sub recordedBody body) fun names₁ sub₁ => ?_
    obtain ⟨l, i, hl, typed, assignable⟩ := result
    have ir : i.ty.ir = m.returnTy.ir := by
      rw [ir_eq_of_assignable assignable, provides.returnTy hm hl]
    change Yields names₁ _ m.returnTy.ir
    rw [← ir]
    exact genExpr_yields provides k.result (List.Subset.trans sub sub₁)
      (Typing.exprRecorded_iff.mp recordedResult) typed

/-- Every function of an accepted program comes from a body that was checked. -/
theorem Check.Accepted.source_checked {s : Source} (hs : HasSource u layout c.program s) :
    s.env.layout = layout ∧ ∃ sc, s.Checked sc := by
  cases hs with
  | main => exact ⟨rfl, _, known.main_checked h⟩
  | method hd _ hk hr hm => exact ⟨rfl, _, known.method_checked h hd hk hr hm _⟩

end Accepted

end MiniJava
