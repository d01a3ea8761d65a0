import MiniJava.Proofs.Declared.Accepted
import MiniJava.Proofs.Names.Declared

/-!
# What is reported at one line

In a numbered program, everything that is reported of a name comes from one occurrence, and is what
the lookup of the name says in the scope of that occurrence. The scope stays the same whatever name
is put there.
-/
namespace MiniJava

open Check ClassTable

/-- A scope in a program whose main class has a given name. -/
structure Check.Scope.Stands (main : Name) (s : Scope) : Prop where
  wellFormed : s.table.WellFormed
  first : s.table.names.head? = some main
  proper : s.place.Proper

theorem Check.Scope.Stands.exists_main {main : Name} {s : Scope} (h : s.Stands main) :
    ∃ k, s.table.get? 0 = some k ∧ k.name = main := by
  have first := h.first
  rw [List.head?_eq_getElem?, getElem?_names] at first
  exact Option.map_eq_some_iff.mp first

section Quiet
variable {n : Nat}

theorem course_quiet {vs : List Visit}
    (free : ∀ v ∈ vs, n ∉ v.step.occurrences.map (·.line)) :
    ∀ t, Quiet n (course t vs).flatten := by
  induction vs with
  | nil => exact fun t => quiet_nil
  | cons v vs ih =>
    intro t
    obtain ⟨first, rest⟩ := List.forall_mem_cons.mp free
    rw [course, List.flatten_cons, quiet_append, Visit.findings_eq]
    exact ⟨lookUp_quiet v.place t v.step first, ih rest (v.after t)⟩

/-- Only two passes report names that are not known. -/
theorem passes_of_isAboutName {e : SemanticError} (about : e.isAboutName = true) {pass : Pass}
    (from_ : pass ∈ e.passes) : pass = .declarations ∨ pass = .bodies := by
  cases e <;> simp_all [SemanticError.isAboutName, SemanticError.passes]

theorem FoundIn.quiet {pass : Pass} {fs : List Finding} (found : FoundIn pass fs)
    (declarations : pass ≠ .declarations) (bodies : pass ≠ .bodies) : Quiet n fs := by
  refine quiet_iff.mpr fun f hf _ => Bool.eq_false_iff.mpr fun about => ?_
  rcases passes_of_isAboutName about (found f hf) with same | same
  · exact declarations same
  · exact bodies same

end Quiet

section Bodies
variable {strict : Bool} {p : Program .bare} {q : Program .registered} {st : State}

theorem used_eq (ready : ready? ⟨none, strict⟩ p = some (q, st)) :
    p.steps.flatMap (·.occurrences) = q.visits.flatMap fun v => v.step.occurrences := by
  rw [← (check_course ready).2, List.flatMap_map]

theorem bodies_quiet (ready : ready? ⟨none, strict⟩ p = some (q, st)) {n : Nat}
    (free : n ∉ (p.steps.flatMap (·.occurrences)).map (·.line)) :
    Quiet n (check ⟨none, strict⟩ p).report.findings := by
  rw [used_eq ready] at free
  rw [(check_course ready).1]
  exact course_quiet (fun v hv => line_free_of_mem free hv) _

theorem onStep_of_free {vs : List Visit} {n : Nat} {z : Name}
    (free : ∀ v ∈ vs, n ∉ v.step.occurrences.map (·.line)) :
    vs.map (Visit.onStep (Step.rename n z)) = vs := by
  refine (List.map_congr_left fun v hv => ?_).trans (List.map_id vs)
  rw [Visit.onStep, Step.rename_eq_self (bears_of_not_mem (free v hv))]
  rfl

/-- A step and the steps around it, of which it alone stands at a line. -/
structure StandsAlone (n : Nat) (vs : List Visit) (v : Visit) (ws : List Visit) : Prop where
  before : ∀ w ∈ vs, n ∉ w.step.occurrences.map (·.line)
  after : ∀ w ∈ ws, n ∉ w.step.occurrences.map (·.line)
  nodup : (v.step.occurrences.map (·.line)).Nodup

/-- Every name in the bodies belongs to one step. -/
theorem exists_standsAlone {us : List Visit}
    (nodup : ((us.flatMap fun v => v.step.occurrences).map (·.line)).Nodup) {o : Occurrence}
    (ho : o ∈ us.flatMap fun v => v.step.occurrences) :
    ∃ vs v ws, us = vs ++ v :: ws ∧ o ∈ v.step.occurrences ∧ StandsAlone o.line vs v ws := by
  obtain ⟨v, hv, here⟩ := List.mem_flatMap.mp ho
  obtain ⟨vs, ws, rfl⟩ := List.append_of_mem hv
  rw [List.flatMap_append, List.flatMap_cons] at nodup
  refine ⟨vs, v, ws, rfl, here, ?_, ?_, nodup_left (nodup_right nodup)⟩
  · intro w hw
    exact line_free_of_mem (line_free_left nodup (List.mem_append_left _ here)) hw
  · intro w hw
    exact line_free_of_mem (line_free_right (nodup_right nodup) here) hw

/-- With another name in one step, the steps before it do what they did, and those behind it start
from another class table at most. -/
theorem findings_renamed (ready : ready? ⟨none, strict⟩ p = some (q, st)) {n : Nat}
    (types : n ∉ p.typeOccurrences.map (·.line)) {vs ws : List Visit} {v : Visit}
    (split : q.visits = vs ++ v :: ws) (alone : StandsAlone n vs v ws) (z : Name) :
    (check ⟨none, strict⟩ (p.rename n z)).report.findings =
      (course st.table vs).flatten ++
        ((lookUp v.place (tableAfter st.table vs) (v.step.rename n z)).findings ++
          (course ((v.onStep (Step.rename n z)).after (tableAfter st.table vs)) ws).flatten) := by
  have renamed : ready? ⟨none, strict⟩ (p.rename n z) =
      some (q.onBodies (renameBody n z) (Expr.rename n z), st) := by
    rw [Program.rename_eq_onBodies (bears_of_not_mem types), ready?_onBodies, ready]
    rfl
  rw [(check_course renamed).1, Program.visits_onBodies (bodySteps_rename n z) fun _ => rfl,
    split, List.map_append, List.map_cons, onStep_of_free alone.before,
    onStep_of_free alone.after, course_append, List.flatten_append, course, List.flatten_cons,
    Visit.findings_eq]
  rfl

/-- Where the bodies are checked, every name in them stands in a scope that does not depend on it. -/
theorem asked_of_used (ready : ready? ⟨none, strict⟩ p = some (q, st))
    (nodup : (p.occurrences.map (·.line)).Nodup) {o : Occurrence}
    (ho : o ∈ p.steps.flatMap (·.occurrences)) :
    ∃ s : Scope, s.Stands p.main.name ∧ Asked s o.kind o.line fun z =>
      (check ⟨none, strict⟩ (p.rename o.line z)).report.findings := by
  have known := ready_of_ready? unlimited_ne ready
  obtain ⟨mirrors, _⟩ := mirrors_of_ready? ready
  rw [(p.occurrences_perm.map _).nodup_iff] at nodup
  have types := line_free_left nodup ho
  replace nodup := nodup_right nodup
  rw [used_eq ready] at nodup ho
  obtain ⟨vs, v, ws, split, here, alone⟩ := exists_standsAlone nodup ho
  have visited : v ∈ q.visits := split ▸ List.mem_append_right vs List.mem_cons_self
  have same := sameDeclarations_tableAfter vs st.table
  refine ⟨⟨tableAfter st.table vs, v.place⟩, ⟨?_, ?_, ?_⟩, ?_⟩
  · exact known.wellFormed.of_sameOutline same.outline.symm
  · rw [same.outline.names, mirrors.names]
    rfl
  · exact proper_of_entered known.entered v visited
  · simp only [findings_renamed ready types split alone]
    have step := lookUp_asked v.place (tableAfter st.table vs) v.step alone.nodup here
    exact (step.before fun z => course_quiet alone.after _).after
      fun z => course_quiet alone.before _

end Bodies

section Declarations
variable {strict : Bool} {p : Program .bare}

/-- Away from the bodies, names are reported by the declaration pass only. -/
theorem nameErrorsAt_check (clean : (hierarchy none p).report.findings = []) {n : Nat}
    (free : n ∉ (p.steps.flatMap (·.occurrences)).map (·.line)) :
    nameErrorsAt n (check ⟨none, strict⟩ p).report.findings =
      nameErrorsAt n (passFindings strict p .declarations) := by
  by_cases silent : passFindings strict p .declarations = []
  · rw [silent]
    change Quiet n (check ⟨none, strict⟩ p).report.findings
    cases ready : ready? ⟨none, strict⟩ p with
    | some r => exact bodies_quiet ready free
    | none =>
      obtain ⟨pass, bodies, stopped⟩ := check_of_not_ready ready
      obtain ⟨findings, found, _⟩ := findings_of_stopped stopped
      rw [findings]
      refine (passFindings_foundIn strict p pass).quiet ?_ bodies
      rintro rfl
      exact found silent
  · have first : passFindings strict p .hierarchy = [] := clean
    have stops : Pass.all.find? (fun pass => !(passFindings strict p pass).isEmpty) =
        some .declarations := by
      simp [Pass.all, first, silent]
    have eq := check_eq strict p unlimited_ne
    rw [stops] at eq
    rw [eq, Report.findings_empty_addAll_none]

theorem Ty.kind_of_mem {line : Nat} {ty : Ty} {o : Occurrence} (ho : o ∈ ty.occurrences line) :
    o.kind = .type := by
  cases ty with
  | object x =>
    obtain rfl := List.mem_singleton.mp ho
    rfl
  | _ => cases ho

theorem VarDecl.kind_of_mem {vs : List VarDecl} {o : Occurrence}
    (ho : o ∈ vs.flatMap (·.occurrences)) : o.kind = .type := by
  obtain ⟨v, _, hv⟩ := List.mem_flatMap.mp ho
  exact Ty.kind_of_mem hv

theorem Program.kind_of_mem_typeOccurrences {o : Occurrence} (ho : o ∈ p.typeOccurrences) :
    o.kind = .type := by
  rcases List.mem_append.mp ho with main | other
  · exact VarDecl.kind_of_mem main
  · obtain ⟨c, _, hc⟩ := List.mem_flatMap.mp other
    rcases List.mem_append.mp hc with field | method
    · exact VarDecl.kind_of_mem field
    · obtain ⟨m, _, hm⟩ := List.mem_flatMap.mp method
      rcases List.mem_append.mp hm with returned | rest
      · exact Ty.kind_of_mem returned
      · rcases List.mem_append.mp rest with param | var
        · exact VarDecl.kind_of_mem param
        · exact VarDecl.kind_of_mem var

/-- One of several types is looked up, whatever class it is. -/
theorem nameErrorsAt_unknownTypes {names : List Name} {os : List Occurrence} {o : Occurrence}
    (nodup : (os.map (·.line)).Nodup) (ho : o ∈ os) (z : Name) :
    nameErrorsAt o.line (unknownTypes names (os.map (Occurrence.rename o.line z))) =
      nameErrorsAt o.line (unknownTypes names [⟨o.line, .type, z⟩]) := by
  obtain ⟨before, after, rfl⟩ := List.append_of_mem ho
  have left := line_free_left nodup List.mem_cons_self
  have later : (([o] ++ after).map (·.line)).Nodup := nodup_right nodup
  have right := line_free_right later (List.mem_singleton_self o)
  rw [← map_line_rename o.line z] at left right
  have own : unknownTypes names [o.rename o.line z] = unknownTypes names [⟨o.line, .type, z⟩] := by
    rw [Occurrence.rename, nameAt, if_pos rfl]
    rfl
  rw [List.map_append, List.map_cons, ← List.singleton_append, unknownTypes_append,
    unknownTypes_append, nameErrorsAt_append, nameErrorsAt_append, unknownTypes_quiet left,
    unknownTypes_quiet right, List.nil_append, List.append_nil, own]

/-- Where the classes may be declared, every declared type is looked up in them. -/
theorem asked_of_declared (clean : (hierarchy none p).report.findings = [])
    (nodup : (p.occurrences.map (·.line)).Nodup) {o : Occurrence} (ho : o ∈ p.typeOccurrences) :
    ∃ s : Scope, s.Stands p.main.name ∧ Asked s o.kind o.line fun z =>
      (check ⟨none, strict⟩ (p.rename o.line z)).report.findings := by
  have names := names_of_clean clean
  rw [(p.occurrences_perm.map _).nodup_iff] at nodup
  have free := line_free_right nodup ho
  refine ⟨⟨(hierarchy none p).table, ⟨0, none⟩⟩, ⟨hierarchy_wellFormed none p, ?_, .main⟩,
    Or.inr ⟨.type, (Program.kind_of_mem_typeOccurrences ho).symm, fun z => ?_⟩⟩
  · rw [names]
    rfl
  · have free' : o.line ∉ (((p.rename o.line z).steps.flatMap (·.occurrences)).map (·.line)) := by
      simpa only [Program.steps_rename, List.flatMap_map, Step.occurrences_rename,
        ← List.map_flatMap, map_line_rename] using free
    have clean' := hierarchy_rename_clean (n := o.line) (z := z) clean
    rw [nameErrorsAt_check clean' free', declarations_looksUp clean', classNames_rename,
      Program.typeOccurrences_rename, nameErrorsAt_unknownTypes (nodup_left nodup) ho,
      ← nameErrorsAt_checkTy, checkTy_looksUp (hierarchy_wellFormed none p).indexed, names]
    rfl

end Declarations

/-- Whatever is reported of a name comes from one occurrence, and varies with the name there as its
lookup does. -/
theorem exists_asked {strict : Bool} {p : Program .bare}
    (nodup : (p.occurrences.map (·.line)).Nodup) {f : Finding}
    (reported : f ∈ (check ⟨none, strict⟩ p).report.findings)
    (about : f.error.isAboutName = true) :
    ∃ o ∈ p.occurrences, o.line = f.line ∧ ∃ s : Scope, s.Stands p.main.name ∧
      Asked s o.kind o.line fun z =>
        (check ⟨none, strict⟩ (p.rename o.line z)).report.findings := by
  have known : ∀ o ∈ p.typeOccurrences ++ p.steps.flatMap (·.occurrences), o ∈ p.occurrences :=
    fun o ho => p.occurrences_perm.mem_iff.mpr ho
  have heard : ∀ fs : List Finding, f ∈ fs → ¬ Quiet f.line fs := by
    intro fs hf quiet
    rw [quiet_iff.mp quiet f hf rfl] at about
    cases about
  cases result : (check ⟨none, strict⟩ p).result with
  | ok c =>
    obtain ⟨q, st, ready, clean, _⟩ := check_eq_ok_iff.mp result
    rw [check_of_ready? ready, conclude, if_pos clean] at reported
    rw [Report.isClean_iff.mp clean] at reported
    cases reported
  | error stopped =>
    obtain ⟨pass⟩ := stopped
    obtain ⟨findings, found, before, after, all, silent⟩ := findings_of_stopped result
    rw [findings] at reported
    rcases passes_of_isAboutName about (passFindings_foundIn strict p pass f reported) with
      rfl | rfl
    · have clean : (hierarchy none p).report.findings = [] := by
        refine silent .hierarchy ?_
        cases before with
        | nil => cases all
        | cons first rest =>
          obtain ⟨rfl, _⟩ := List.cons.inj all
          exact List.mem_cons_self
      have here : f.line ∈ p.typeOccurrences.map (·.line) := by
        by_contra free
        refine heard _ reported ?_
        rw [Quiet, declarations_looksUp clean]
        exact unknownTypes_quiet free
      obtain ⟨o, ho, line⟩ := List.mem_map.mp here
      exact ⟨o, known o (List.mem_append_left _ ho), line, asked_of_declared clean nodup ho⟩
    · cases ready : ready? ⟨none, strict⟩ p with
      | none =>
        obtain ⟨pass, other, stopped⟩ := check_of_not_ready ready
        rw [result] at stopped
        cases stopped
        exact absurd rfl other
      | some r =>
        rw [← findings] at reported
        have here : f.line ∈ (p.steps.flatMap (·.occurrences)).map (·.line) := by
          by_contra free
          exact heard _ reported (bodies_quiet ready free)
        obtain ⟨o, ho, line⟩ := List.mem_map.mp here
        exact ⟨o, known o (List.mem_append_right _ ho), line, asked_of_used ready nodup ho⟩

end MiniJava
