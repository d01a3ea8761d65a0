import MiniJava.Proofs.Accepted

/-!
# Soundness and completeness of the body pass

Without a limit on the findings the body pass reports nothing but variables that might not have been
initialized exactly for the programs that are well typed, and then it has recorded what the rules
derive.
-/
namespace MiniJava.Typing

open Check

theorem bodies_sound_complete (strict : Bool) (p : Program .bare) {q : Program .registered}
    {st : State} (passed : ready? ⟨none, strict⟩ p = some (q, st)) :
    (check ⟨none, strict⟩ p).report = (bodies q st).2.report ∧
      (OnlyUninitialized (bodies q st).2.report.findings ↔ ProgramTyped st.table p) ∧
      (ProgramTyped st.table p →
        (bodies q st).1.bare = p ∧ ProgramRecorded st.table (bodies q st).1) := by
  have ready := ready_of_ready? (o := ⟨none, strict⟩) (by simp) passed
  have judged := bodies_judged ready.wellFormed ready.entered
  have same : ClassTable.SameDeclarations st.table st.table := .refl _
  obtain ⟨fs, hfs, complete, sound⟩ := judged.findings st same
  have unlimited : st.report.limit = none := ready.limit
  have kept : (bodies q st).2.report.findings = fs := by
    rw [hfs, Report.findings_addAll_of_unlimited unlimited, ready.clean, List.nil_append]
  have isOpen : (bodies q st).2.report.Open := by
    refine Or.inl ?_
    rw [hfs, Report.limit_addAll, unlimited]
  rw [ready.bare] at complete sound
  refine ⟨?_, ?_, ?_⟩
  · rw [check_of_ready? passed, conclude]
    split <;> rfl
  · rw [kept]
    exact ⟨fun only => (sound isOpen only).1, complete⟩
  · intro typed
    exact ⟨(judged.always st same).trans ready.bare, (sound isOpen (complete typed)).2⟩

theorem bodies_sound_complete_branches :
    ∃ q st, ready? ⟨none, true⟩ branches = some (q, st) ∧
      (check ⟨none, true⟩ branches).report = (bodies q st).2.report ∧
      (OnlyUninitialized (bodies q st).2.report.findings ↔ ProgramTyped st.table branches) ∧
      (ProgramTyped st.table branches →
        (bodies q st).1.bare = branches ∧ ProgramRecorded st.table (bodies q st).1) := by
  have ready : (ready? ⟨none, true⟩ branches).isSome = true := by decide +kernel
  obtain ⟨⟨q, st⟩, passed⟩ := Option.isSome_iff_exists.mp ready
  exact ⟨q, st, passed, bodies_sound_complete true branches passed⟩

end MiniJava.Typing
