import MiniJava.Proofs.Codegen.Consistent
import MiniJava.Proofs.Codegen.GlobalNames
import MiniJava.Proofs.Layout.Dispatch

/-!
# Closed modules

The module of an accepted program defines every global that it should, once, and names no other. A
table of methods casts each function from the type that it is defined with, and inside a function no
name is introduced twice.
-/
namespace MiniJava

open IR Codegen Check ClassTable

namespace VTable
variable {t : ClassTable}

/-- An entry is for a method of the class table, with the type that this has. -/
theorem method_of_build {c : ClassId} {v : VTable} (h : build t c = .ok v) :
    v.cls = t.nameOf c ∧ ∀ e, some e ∈ v.slots →
      ∃ r m, t.method? r = some m ∧ e = ⟨r, m.name, t.nameOf r.cls, m.signature⟩ := by
  cases main : t.isMain c with
  | true =>
    rw [build, main] at h
    obtain rfl := Except.ok.inj h
    exact ⟨rfl, fun e he => (by cases he)⟩
  | false =>
    obtain ⟨_, _, rfl⟩ := exists_of_build h main
    refine ⟨rfl, fun e he => ?_⟩
    obtain ⟨i, hi⟩ := List.mem_iff_getElem?.mp he
    obtain ⟨m, hm, _, same⟩ := exists_of_entry (entry_of_slot h main hi).2
    exact ⟨e.ref, m, hm, same⟩

end VTable

namespace Layout
variable {t : ClassTable}

theorem ofClass_of_mem {cs : List ClassId} : ∀ {ls : Layout}, ofClasses t cs = .ok ls →
    ∀ l ∈ ls, ∃ c ∈ cs, ofClass t c = .ok l := by
  induction cs with
  | nil =>
    intro ls h l hl
    obtain rfl := Except.ok.inj h
    cases hl
  | cons c cs ih =>
    intro ls h l hl
    obtain ⟨k, hk, h⟩ := exists_of_bind_eq_ok h
    obtain ⟨ls', hls, h⟩ := exists_of_bind_eq_ok h
    obtain rfl := Except.ok.inj h
    rcases List.mem_cons.mp hl with rfl | hl
    · exact ⟨c, List.mem_cons_self, hk⟩
    · obtain ⟨d, hd, same⟩ := ih hls l hl
      exact ⟨d, List.mem_cons_of_mem c hd, same⟩

/-- The table of a class is named like the class, and its entries are for methods of the class
table. -/
theorem table_of_compute {s : Strategy} {u : ClassTable} {layout : Layout}
    (h : compute s t = (u, .ok layout)) {l : ClassLayout} (hl : l ∈ layout) :
    l.vtable.cls = l.name ∧ l.name ∈ u.names ∧ ∀ e, some e ∈ l.vtable.slots →
      ∃ r m, u.method? r = some m ∧ e = ⟨r, m.name, u.nameOf r.cls, m.signature⟩ := by
  have names := names_of_compute h
  obtain ⟨rfl, computed⟩ := Prod.mk.inj h
  obtain ⟨c, _, hc⟩ := ofClass_of_mem computed l hl
  have name := name_of_ofClass_eq_ok hc
  obtain ⟨stop, _, hc⟩ := exists_of_bind_eq_ok hc
  obtain ⟨v, hv, hc⟩ := exists_of_bind_eq_ok hc
  obtain ⟨cls, entries⟩ := VTable.method_of_build hv
  have table : l.vtable = v := by rw [← Except.ok.inj hc]
  rw [table]
  exact ⟨cls.trans name.symm, names ▸ List.mem_map_of_mem hl, entries⟩

end Layout

/-- The names of a module do not clash. -/
structure IR.Module.Closed (p : Program .bare) (m : Module) : Prop where
  /-- The globals that are declared or defined are those of the program. -/
  definitions : definitionsIn m.text = p.globalNames
  /-- None is defined twice. -/
  distinct : (definitionsIn m.text).Nodup
  /-- No other global is named. -/
  known : globalsIn m.text ⊆ definitionsIn m.text
  /-- A table casts a function from the type in the first line of that function. -/
  signatures : ∀ c ∈ m.layout, ∀ e, some e ∈ c.vtable.slots → ∃ f ∈ m.functions,
    f.header.name = e.owner ++ "." ++ e.name ∧
      e.signature = .fn f.header.result (f.header.params.map Prod.fst)
  /-- No function introduces a local twice. -/
  locals : ∀ f ∈ m.functions, (localsIn f.text).Nodup
  builtins : ∀ b : Builtin, (localsIn b.text).Nodup

/-- What is asked of the names of a function. -/
structure Codegen.Source.Named (s : Source) : Prop where
  scope : IsScope s.env.scope
  header : s.header.Named
  params : ∀ a ∈ s.header.params, IsLocal s.env.scope a.2
  slots : ∀ x ∈ s.env.slots, IsLocal s.env.scope x.1

/-- A function uses the globals and what is local to it. -/
theorem Codegen.Source.Named.vocabulary {s : Source} (named : s.Named) {names : Names}
    {defined : List Name} (outer : Vocabulary names defined)
    {declared : Names} (inner : ∀ x ∈ declared, IsLocal s.env.scope x.1) :
    Vocabulary (s.header.names names ++ declared) defined := by
  have params : ∀ x ∈ s.header.params.map Prod.swap, IsLocal s.env.scope x.1 :=
    List.forall_mem_map.mpr fun a ha => named.params a ha
  have global : ∀ {n : Name}, ¬ IsLocal s.env.scope (.global n) := nofun
  constructor
  · exact List.forall_mem_append.mpr ⟨List.forall_mem_append.mpr ⟨outer.named,
      fun x hx => (params x hx).named named.scope⟩, fun x hx => (inner x hx).named named.scope⟩
  · intro n ty hn
    rcases List.mem_append.mp hn with hn | hn
    · rcases List.mem_append.mp hn with hn | hn
      · exact outer.globals n ty hn
      · exact absurd (params _ hn) global
    · exact absurd (inner _ hn) global

section Accepted
variable {p : Program .bare} {c : Checked} {t u : ClassTable} {layout : Layout}
  (known : Accepted p c t) (h : Layout.Prepared t u layout)

theorem isLocal_slots {e : Env} (identifiers : ∀ x ∈ e.locals, IsIdentifier x.name) :
    ∀ x ∈ e.slots, IsLocal e.scope x.1 :=
  List.forall_mem_map.mpr fun x hx => .slot (identifiers x hx)

include known h in
theorem Check.Accepted.identifiers_mainLocals (identifiers : ∀ n ∈ p.names, IsIdentifier n) :
    ∀ x ∈ mainLocals u, IsIdentifier x.name := by
  intro x hx
  have names := congrArg (List.map Local.name) (declared_mainLocals known h.same)
  rw [List.map_map, List.map_map] at names
  have inside : x.name ∈ (mainLocals u).map (Local.name ∘ Local.declared) :=
    List.mem_map_of_mem (f := Local.name ∘ Local.declared) hx
  rw [names] at inside
  obtain ⟨v, hv, name⟩ := List.mem_map.mp inside
  exact name ▸ identifiers _ (Program.mainVar_mem hv)

include known h in
/-- The class that a declaration has been entered as bears the name that is declared. -/
theorem Check.Accepted.nameOf_noted {d : ClassDecl .checked} (hd : d ∈ c.program.classes)
    {id : ClassId} (note : d.note = some id) : u.nameOf id = d.name ∧ d.name ∈ p.classNames := by
  obtain ⟨⟨id', note', found⟩, _⟩ := known.recorded.classes d hd
  obtain rfl := Option.some.inj (note.symm.trans note')
  obtain ⟨b, hb, clsName⟩ := known.wellFormed.find?_eq_some_iff.mp found
  constructor
  · rw [h.same.outline.nameOf, ClassTable.nameOf, hb]
    exact clsName
  · rw [← known.bare]
    exact List.mem_cons_of_mem _ (List.mem_map.mpr ⟨d.bare, List.mem_map_of_mem hd, rfl⟩)

include known h in
theorem Check.Accepted.source_named {strict : Bool} {t' : ClassTable}
    (mirrors : Mirrors strict p t') (same : SameDeclarations u t')
    (identifiers : ∀ n ∈ p.names, IsIdentifier n) {s : Source}
    (hs : HasSource u layout c.program s) : s.Named := by
  cases hs with
  | main =>
    have name : c.program.main.name = p.main.name := by
      rw [← known.bare]
      rfl
    have scope : IsScope (c.program.main.name ++ "_main") := by
      refine ⟨p.main.name, "main", identifiers _ (Program.classNames_subset List.mem_cons_self), ?_,
        by rw [name, String.append_assoc]; rfl⟩
      decide
    have header : IsName "main" := by decide
    exact ⟨scope, ⟨header, nofun⟩, nofun,
      isLocal_slots (known.identifiers_mainLocals h identifiers)⟩
  | @method d k id r m hd note hk hr hm =>
    obtain ⟨d', hd', k', hk', declared⟩ := mirrors.declaredMethod same hm
    have name : IsIdentifier m.name :=
      declared.name ▸ identifiers _ (Program.methodName_mem hd' hk')
    have locals : ∀ x ∈ m.locals, IsIdentifier x.name := by
      intro x hx
      have inside : x.name ∈ m.locals.map (·.name) := List.mem_map_of_mem hx
      rw [declared.locals] at inside
      obtain ⟨v, hv, name⟩ := List.mem_map.mp inside
      exact name ▸ identifiers _ (Program.local_mem hd' hk' hv)
    have cls : IsIdentifier (u.nameOf m.owner) := by
      rw [declared.owner, declared.cls]
      exact identifiers _ (Program.classNames_subset
        (List.mem_cons_of_mem _ (List.mem_map_of_mem hd')))
    obtain ⟨nameOf, noted⟩ := known.nameOf_noted h hd note
    have scope : IsScope (u.nameOf id ++ "_" ++ m.name) :=
      ⟨u.nameOf id, m.name, nameOf ▸ identifiers _ (Program.classNames_subset noted), name, rfl⟩
    have params : ∀ a ∈ (methodHeader u m).params, IsLocal (u.nameOf id ++ "_" ++ m.name) a.2 :=
      List.forall_mem_cons.mpr ⟨.this, List.forall_mem_map.mpr fun x hx =>
        .param (locals x (List.mem_of_mem_take hx))⟩
    refine ⟨scope, ⟨?_, fun a ha => ?_⟩, params, isLocal_slots locals⟩
    · exact IsName.append (.append cls.isName (by decide)) name.isName
    · exact ⟨(params a ha).named scope, (params a ha).isLocal⟩

theorem Program.prelude_subset (p : Program .bare) : preludeNames ⊆ p.globalNames :=
  List.subset_append_of_subset_left _ (List.subset_append_left _ _)

theorem Program.table_mem {p : Program .bare} {n : Name} (hn : n ∈ p.classNames) :
    s!".{n}_vtable" ∈ p.globalNames :=
  List.mem_append_left _ (List.mem_append_right _
    (List.mem_map_of_mem (f := fun n => s!".{n}_vtable") hn))

theorem vocabulary_globals {p : Program .bare} (identifiers : ∀ n ∈ p.names, IsIdentifier n)
    (names : layout.map (·.name) = p.classNames) :
    Vocabulary (globals layout) p.globalNames := by
  have tables : ∀ l ∈ layout, l.name ∈ p.classNames := fun l hl =>
    names ▸ List.mem_map_of_mem hl
  refine ⟨List.forall_mem_append.mpr ⟨?_, List.forall_mem_map.mpr fun l hl => ?_⟩,
    fun n ty hn => ?_⟩
  · intro x hx
    obtain ⟨b, _, hb⟩ := List.mem_filterMap.mp hx
    obtain ⟨_, _, rfl⟩ := Option.map_eq_some_iff.mp hb
    change IsName b.name
    cases b <;> decide
  · exact isName_tableName (identifiers _ (Program.classNames_subset (tables l hl))).isName
  · rcases List.mem_append.mp hn with hn | hn
    · obtain ⟨b, _, hb⟩ := List.mem_filterMap.mp hn
      obtain ⟨_, _, same⟩ := Option.map_eq_some_iff.mp hb
      obtain rfl := Value.global.inj (Prod.mk.inj same).1
      refine p.prelude_subset ?_
      cases b <;> decide
    · obtain ⟨l, hl, same⟩ := List.mem_map.mp hn
      obtain rfl := Value.global.inj (Prod.mk.inj same).1
      exact Program.table_mem (tables l hl)

include known h in
/-- What is written for a function of an accepted program. -/
theorem Check.Accepted.function_written {strict : Bool} {t' : ClassTable}
    (mirrors : Mirrors strict p t') (same : SameDeclarations u t')
    (identifiers : ∀ n ∈ p.names, IsIdentifier n) {f : Function}
    (hf : f ∈ (generate u layout c.program).1.functions) :
    WholeLines p.globalNames [f.header.name] f.text ∧ (localsIn f.text).Nodup ∧
      lines f.text = f.rows.map String.toList ++ [[]] := by
  have names : layout.map (·.name) = p.classNames := by
    rw [h.named, same.outline.names, mirrors.names]
  have defined : f.header.name ∈ p.globalNames := by
    refine List.mem_append_right _ (known.headers h ▸ ?_)
    exact List.mem_map_of_mem (f := fun f : Function => f.header.name) hf
  obtain ⟨s, n, hs, rfl⟩ := exists_source f hf
  have named := known.source_named h mirrors same identifiers hs
  obtain ⟨layouts, _, frame, _, _, _, _, returning⟩ := known.source_checked h hs
  obtain ⟨code, q, v, function, structured⟩ :=
    returning.structured frame (layouts.symm ▸ h.names_nodup) n
  have once := generate_startsOnce u layout c.program _ hf
  rw [function] at once defined ⊢
  have once : (started (structuredBody s.header s.env.slots code v)).Nodup :=
    List.nodup_iff_count.mpr fun l => starts_eq_count l _ ▸ once l
  have isLocal := structured.isLocal_declared named.slots
  have vocabulary := named.vocabulary (layouts ▸ vocabulary_globals identifiers names) isLocal
  obtain ⟨written, locals⟩ := Function.written vocabulary named.header defined
    (structured.typed true).instrs fun x hx => (isLocal x hx).isLocal
  refine ⟨written, ?_, ?_⟩
  · rw [locals]
    exact structured.introduces_nodup once named.scope named.params named.slots
  · exact Function.lines_text vocabulary rfl named.header defined (structured.typed true).instrs

/-- The class and the name of a method tell it from the others. -/
theorem methodRef_injective (wf : u.WellFormed) {r q : MethodRef} {m k : Method}
    (hm : u.method? r = some m) (hk : u.method? q = some k)
    (classes : u.nameOf r.cls = u.nameOf q.cls) (names : m.name = k.name) : r = q := by
  have found : ∀ {r m}, u.method? r = some m → u.find? (u.nameOf r.cls) = some r.cls := by
    intro r m hm
    refine wf.find?_eq_some_iff.mpr ?_
    cases hc : u.get? r.cls with
    | none =>
      rw [method?, ClassTable.methods, hc] at hm
      cases hm
    | some b => exact ⟨b, rfl, by rw [nameOf, hc]; rfl⟩
  have cls : r.cls = q.cls := Option.some.inj ((found hm).symm.trans (classes ▸ found hk))
  have own := wf.ownMethod?_of_method? hm
  rw [cls, names, wf.ownMethod?_of_method? hk] at own
  obtain ⟨_, i⟩ := r
  obtain ⟨_, j⟩ := q
  obtain rfl := cls
  exact congrArg (MethodRef.mk _) (Option.some.inj own).symm

include known h in
/-- There is a function for every method of the class table. -/
theorem Check.Accepted.exists_function {strict : Bool} {t' : ClassTable}
    (mirrors : Mirrors strict p t') (same : SameDeclarations u t')
    (identifiers : ∀ n ∈ p.names, IsIdentifier n) {r : MethodRef} {m : Method}
    (hm : u.method? r = some m) :
    ∃ f ∈ (generate u layout c.program).1.functions, f.header = methodHeader u m := by
  have wf : u.WellFormed := h.wellFormed.of_sameOutline h.same.outline.symm
  obtain ⟨d, hd, k, hk, declared⟩ := mirrors.declaredMethod same hm
  have listed : d.name ++ "." ++ k.name ∈
      (generate u layout c.program).1.functions.map (·.header.name) := by
    rw [known.headers h]
    exact List.mem_cons_of_mem _ (List.mem_flatMap.mpr ⟨d, hd, List.mem_map_of_mem
      (f := fun m : MethodDecl .bare => d.name ++ "." ++ m.name) hk⟩)
  obtain ⟨f, hf, name⟩ := List.mem_map.mp listed
  refine ⟨f, hf, ?_⟩
  obtain ⟨s, n, hs, rfl⟩ := exists_source f hf
  cases hs with
  | main =>
    have dot : '.' ∈ "main".toList := by
      have main : "main" = d.name ++ "." ++ k.name := name
      rw [main, toList_functionName]
      simp
    exact absurd dot (by decide)
  | @method d' k' id r' m' hd' note hk' hr' hm' =>
    obtain ⟨e, he, l, hl, declared'⟩ := mirrors.declaredMethod same hm'
    have header : (methodHeader u m').name = e.name ++ "." ++ l.name := by
      rw [methodHeader, declared'.owner, declared'.cls, declared'.name]
    obtain ⟨classes, names⟩ := functionName_injective
      (identifiers _ (Program.methodName_mem he hl)) (identifiers _ (Program.methodName_mem hd hk))
      (header.symm.trans name)
    obtain rfl : r' = r := methodRef_injective wf hm' hm
      (by rw [declared'.cls, declared.cls, classes]) (by rw [declared'.name, declared.name, names])
    obtain rfl := Option.some.inj (hm.symm.trans hm')
    rfl

include known h in
theorem Check.Accepted.closed {strict : Bool} {t' : ClassTable} (mirrors : Mirrors strict p t')
    (same : SameDeclarations u t') (rules : p.HierarchyRules)
    (identifiers : ∀ n ∈ p.names, IsIdentifier n) {strategy : Layout.Strategy} {t₀ : ClassTable}
    (computed : Layout.compute strategy t₀ = (u, .ok layout)) :
    (generate u layout c.program).1.Closed p := by
  have classes : u.names = p.classNames := same.outline.names.trans mirrors.names
  have names : layout.map (·.name) = p.classNames := h.named.trans classes
  have tables : WholeLines p.globalNames (layout.flatMap fun l => [s!".{l.name}_vtable"])
      layout.vtablesText := by
    refine .join fun l hl => ?_
    obtain ⟨cls, inside, entries⟩ := Layout.table_of_compute computed hl
    rw [classes] at inside
    have name := identifiers _ (Program.classNames_subset inside)
    rw [← cls] at name inside ⊢
    refine TableNamed.written ⟨name.isName, Program.table_mem inside, fun e he => ?_⟩
    obtain ⟨r, m, hm, rfl⟩ := entries e he
    obtain ⟨d, hd, k, hk, declared⟩ := mirrors.declaredMethod same hm
    rw [declared.cls, declared.name]
    refine ⟨IsName.append (.append (identifiers _ (Program.classNames_subset
      (List.mem_cons_of_mem _ (List.mem_map_of_mem hd)))).isName (by decide))
      (identifiers _ (Program.methodName_mem hd hk)).isName, ?_⟩
    exact List.mem_append_right _ (List.mem_cons_of_mem _ (List.mem_flatMap.mpr ⟨d, hd,
      List.mem_map_of_mem (f := fun m : MethodDecl .bare => d.name ++ "." ++ m.name) hk⟩))
  have functions : WholeLines p.globalNames
      ((generate u layout c.program).1.functions.flatMap fun f => [f.header.name])
      (String.join ((generate u layout c.program).1.functions.map (·.text))) :=
    .join fun f hf => (known.function_written h mirrors same identifiers hf).1
  have text : (generate u layout c.program).1.text = IR.prelude ++ layout.vtablesText ++
      String.join ((generate u layout c.program).1.functions.map (·.text)) := rfl
  have whole := ((written_prelude p.prelude_subset).append tables).append functions
  rw [← text] at whole
  have definitions : definitionsIn (generate u layout c.program).1.text = p.globalNames := by
    rw [whole.definitions, Program.globalNames, ← names, ← known.headers h, List.map_map,
      ← List.flatMap_pure_eq_map, ← List.flatMap_pure_eq_map]
    rfl
  exact
    { definitions
      distinct := definitions ▸ globalNames_nodup identifiers rules
      known := definitions ▸ whole.named
      signatures := fun l hl e he => by
        obtain ⟨_, _, entries⟩ := Layout.table_of_compute computed hl
        obtain ⟨r, m, hm, rfl⟩ := entries e he
        obtain ⟨f, hf, header⟩ := known.exists_function h mirrors same identifiers hm
        obtain ⟨d, hd, k, hk, declared⟩ := mirrors.declaredMethod same hm
        refine ⟨f, hf, ?_, ?_⟩
        · rw [header, methodHeader, declared.owner]
        · rw [header, methodHeader, Method.signature, List.map_cons, Method.paramTys, List.map_map,
            List.map_map]
          rfl
      locals := fun f hf => (known.function_written h mirrors same identifiers hf).2.1
      builtins := builtin_locals_nodup }

end Accepted

/-- The module of an accepted program whose names are identifiers is closed, and its names do not
clash. Under a limit of 0, which is left out, programs with clashes are accepted as well. -/
theorem module_closed {o : CheckOptions} (positive : o.maxErrors ≠ some 0) {p : Program .bare}
    {c : Checked} (accepted : (check o p).result = .ok c)
    (identifiers : ∀ n ∈ p.names, IsIdentifier n) (s : Layout.Strategy) :
    ∃ t layout, Layout.compute s c.table = (t, .ok layout) ∧
      (generate t layout c.program).2 = none ∧ (generate t layout c.program).1.Closed p := by
  obtain ⟨_, known⟩ := exists_accepted positive accepted
  obtain ⟨t, layout, computed, prepared⟩ := known.prepared s
  obtain ⟨t', mirrors, same, rules⟩ := exists_mirrors positive accepted
  have sameLaid : SameDeclarations t t' := (prepared.same.trans known.same.symm).trans same
  exact ⟨t, layout, computed, (known.usable prepared).generate,
    known.closed prepared mirrors sameLaid rules identifiers computed⟩

theorem module_closed_branches :
    ∃ c, (check {} branches).result = .ok c ∧ (∀ n ∈ branches.names, IsIdentifier n) ∧
      ∃ t layout, Layout.compute .sharedRootCounter c.table = (t, .ok layout) ∧
        (generate t layout c.program).2 = none ∧
        (generate t layout c.program).1.Closed branches := by
  obtain ⟨c, accepted⟩ := exists_of_isOk (x := (check {} branches).result) (by decide +kernel)
  have identifiers : ∀ n ∈ branches.names, IsIdentifier n := by decide +kernel
  exact ⟨c, accepted, identifiers,
    module_closed (by decide) accepted identifiers .sharedRootCounter⟩

/-- What is said of emitted instructions is said of the text: the lines of a function are its header, one
line for each label and instruction in their order, and the closing bracket. A limit of 0 is left out. -/
theorem module_lines {o : CheckOptions} (positive : o.maxErrors ≠ some 0) {p : Program .bare}
    {c : Checked} (accepted : (check o p).result = .ok c)
    (identifiers : ∀ n ∈ p.names, IsIdentifier n) (s : Layout.Strategy) :
    ∃ t layout, Layout.compute s c.table = (t, .ok layout) ∧
      (generate t layout c.program).2 = none ∧
      ∀ f ∈ (generate t layout c.program).1.functions,
        lines f.text = f.rows.map String.toList ++ [[]] := by
  obtain ⟨_, known⟩ := exists_accepted positive accepted
  obtain ⟨t, layout, computed, prepared⟩ := known.prepared s
  obtain ⟨t', mirrors, same, _⟩ := exists_mirrors positive accepted
  have sameLaid : SameDeclarations t t' := (prepared.same.trans known.same.symm).trans same
  exact ⟨t, layout, computed, (known.usable prepared).generate,
    fun f hf => (known.function_written prepared mirrors sameLaid identifiers hf).2.2⟩

end MiniJava
