import MiniJava.Proofs.Codegen.Labels
import MiniJava.Proofs.Codegen.Structured

/-!
# Consistency of the generated code

Every function that is generated for an accepted program is a control-flow graph, uses its operands
at the types that they have, and sets each temporary once and before it is used. All this is said of
the labels and instructions that are emitted. If the names of the program are identifiers, the lines of
the text are exactly these (`module_lines`).
-/
namespace MiniJava

open IR Codegen Check

section Accepted
variable {p : Program .bare} {c : Checked} {t u : ClassTable} {layout : Layout}
  (known : Accepted p c t) (h : Layout.Prepared t u layout)
include known h

/-- The functions of an accepted program are finished, structured and start no block twice. -/
theorem Check.Accepted.structured {f : Function}
    (hf : f ∈ (generate u layout c.program).1.functions) :
    ∃ header slots code v, f = ⟨header, structuredBody header slots code v, true⟩ ∧
      (started (structuredBody header slots code v)).Nodup ∧
        ∃ q, Structured (globals layout) header slots code q v := by
  obtain ⟨s, n, hs, rfl⟩ := exists_source f hf
  obtain ⟨same, _, frame, _, _, _, _, returning⟩ := known.source_checked h hs
  obtain ⟨code, q, v, function, structured⟩ :=
    returning.structured frame (same.symm ▸ h.names_nodup) n
  have once := generate_startsOnce u layout c.program _ hf
  rw [function] at once ⊢
  refine ⟨_, _, _, _, rfl, List.nodup_iff_count.mpr fun l => ?_, q, same ▸ structured⟩
  rw [← starts_eq_count]
  exact once l

/-- The operand of an expression has the type that represents the type of the expression, from where
its code ends. -/
theorem Check.Accepted.operand {s : Source} (hs : HasSource u layout c.program s) {e : Expr Note}
    (he : .expr e ∈ s.items) :
    ∃ info, e.note = some info ∧ ∀ k, ∃ v, (genExpr s.env e k).result = .ok v ∧
      v.HasType (s.names ++ declared (genExpr s.env e k).code) info.ty.ir := by
  obtain ⟨_, sc, checked⟩ := known.source_checked h hs
  have recorded : Typing.ExprRecorded sc e :=
    fun x hx => checked.recorded (.expr x) (hs.closed e he x hx)
  obtain ⟨info, note, derives⟩ := recorded e (self_mem_all e)
  refine ⟨info, note, fun k => ?_⟩
  obtain ⟨v, known', hv, region, typed⟩ := genExpr_yields checked.provides e
    (List.Subset.refl _) recorded ((derives info).mpr rfl) k
  have sub := (region.typed (List.subset_append_left _ _) (List.subset_append_right _ _)).1
  exact ⟨v, hv, typed.mono sub⟩

end Accepted

/-- Every function of an accepted program is a control-flow graph, and no label is used twice in the
module but `entry`. A limit of 0 is left out: nothing is reported under it, whatever the program. -/
theorem generates_controlFlow {o : CheckOptions} (positive : o.maxErrors ≠ some 0)
    {p : Program .bare} {c : Checked} (accepted : (check o p).result = .ok c)
    (s : Layout.Strategy) :
    ∃ t layout, Layout.compute s c.table = (t, .ok layout) ∧
      (generate t layout c.program).2 = none ∧
      (∀ f ∈ (generate t layout c.program).1.functions, f.finished = true ∧ f.WellFormed) ∧
      ((innerLabels (generate t layout c.program).1.functions).map Label.text).Nodup := by
  obtain ⟨_, known⟩ := exists_accepted positive accepted
  obtain ⟨t, layout, computed, prepared⟩ := known.prepared s
  refine ⟨t, layout, computed, (known.usable prepared).generate, fun f hf => ?_,
    generate_innerLabels_nodup t layout c.program⟩
  obtain ⟨_, _, _, _, rfl, once, _, structured⟩ := known.structured prepared hf
  exact ⟨rfl, structured.wellFormed once true⟩

theorem generates_controlFlow_branches :
    ∃ c, (check {} branches).result = .ok c ∧
      ∃ t layout, Layout.compute .parentPrefix c.table = (t, .ok layout) ∧
        (generate t layout c.program).2 = none ∧
        (∀ f ∈ (generate t layout c.program).1.functions, f.finished = true ∧ f.WellFormed) ∧
        ((innerLabels (generate t layout c.program).1.functions).map Label.text).Nodup := by
  obtain ⟨c, accepted⟩ := exists_of_isOk (x := (check {} branches).result) (by decide +kernel)
  exact ⟨c, accepted, generates_controlFlow (by decide) accepted .parentPrefix⟩

/-- In every function of an accepted program the operands are used at the types that they have, and
the operand of every expression has the type that represents the type of the expression. A program
that is accepted under a limit of 0 need not have any types, so this limit is left out. -/
theorem generates_typed {o : CheckOptions} (positive : o.maxErrors ≠ some 0) {p : Program .bare}
    {c : Checked} (accepted : (check o p).result = .ok c) (s : Layout.Strategy) :
    ∃ t layout, Layout.compute s c.table = (t, .ok layout) ∧
      (generate t layout c.program).2 = none ∧
      (∀ f ∈ (generate t layout c.program).1.functions,
        f.finished = true ∧ f.Typed (globals layout)) ∧
      ∀ source, HasSource t layout c.program source → ∀ e, .expr e ∈ source.items →
        ∃ info, e.note = some info ∧ ∀ k, ∃ v, (genExpr source.env e k).result = .ok v ∧
          v.HasType (source.names ++ declared (genExpr source.env e k).code) info.ty.ir := by
  obtain ⟨_, known⟩ := exists_accepted positive accepted
  obtain ⟨t, layout, computed, prepared⟩ := known.prepared s
  refine ⟨t, layout, computed, (known.usable prepared).generate, fun f hf => ?_,
    fun source hs e he => known.operand prepared hs he⟩
  obtain ⟨_, _, _, _, rfl, _, _, structured⟩ := known.structured prepared hf
  exact ⟨rfl, structured.typed true⟩

theorem generates_typed_branches :
    ∃ c, (check {} branches).result = .ok c ∧
      ∃ t layout, Layout.compute .sharedRootCounter c.table = (t, .ok layout) ∧
        (generate t layout c.program).2 = none ∧
        (∀ f ∈ (generate t layout c.program).1.functions,
          f.finished = true ∧ f.Typed (globals layout)) ∧
        ∀ source, HasSource t layout c.program source → ∀ e, .expr e ∈ source.items →
          ∃ info, e.note = some info ∧ ∀ k, ∃ v, (genExpr source.env e k).result = .ok v ∧
            v.HasType (source.names ++ declared (genExpr source.env e k).code) info.ty.ir := by
  obtain ⟨c, accepted⟩ := exists_of_isOk (x := (check {} branches).result) (by decide +kernel)
  exact ⟨c, accepted, generates_typed (by decide) accepted .sharedRootCounter⟩

/-- In every function of an accepted program the temporaries are numbered in the order of the text,
and each is set before it is used. A limit of 0, under which nothing is checked, is left out. -/
theorem generates_singleAssignment {o : CheckOptions} (positive : o.maxErrors ≠ some 0)
    {p : Program .bare} {c : Checked} (accepted : (check o p).result = .ok c)
    (s : Layout.Strategy) :
    ∃ t layout, Layout.compute s c.table = (t, .ok layout) ∧
      (generate t layout c.program).2 = none ∧
      ∀ f ∈ (generate t layout c.program).1.functions, f.finished = true ∧ f.SingleAssignment := by
  obtain ⟨_, known⟩ := exists_accepted positive accepted
  obtain ⟨t, layout, computed, prepared⟩ := known.prepared s
  refine ⟨t, layout, computed, (known.usable prepared).generate, fun f hf => ?_⟩
  obtain ⟨_, _, _, _, rfl, once, _, structured⟩ := known.structured prepared hf
  exact ⟨rfl, structured.singleAssignment once true⟩

theorem generates_singleAssignment_branches :
    ∃ c, (check {} branches).result = .ok c ∧
      ∃ t layout, Layout.compute .sharedRootCounter c.table = (t, .ok layout) ∧
        (generate t layout c.program).2 = none ∧
        ∀ f ∈ (generate t layout c.program).1.functions,
          f.finished = true ∧ f.SingleAssignment := by
  obtain ⟨c, accepted⟩ := exists_of_isOk (x := (check {} branches).result) (by decide +kernel)
  exact ⟨c, accepted, generates_singleAssignment (by decide) accepted .sharedRootCounter⟩

end MiniJava
