import MiniJava.Proofs.Codegen.Checked
import MiniJava.Proofs.Codegen.Damaged

/-!
# Modules that end early

The text of a module may end early for two reasons: the sink takes no more, or the results of the
analysis were damaged. What is written is a front part of the whole module in any case, and an error
of code generation names something that was damaged.
-/
namespace MiniJava

open Check Codegen

/-- What is written of a module in spite of damage. -/
structure Truncated (a : Analysis) (d : Damage) (w : Written) : Prop where
  /-- What is written is a front part of the whole module. -/
  front : ∃ rest, w.bytes ++ rest = (a.generate {}).bytes
  /-- Nothing is left out without an error. -/
  whole : w.result = .ok () → w.bytes = (a.generate {}).bytes
  /-- The sink is full, or something that was damaged is asked for. -/
  cause : ∀ e, w.result = .error e →
    e = .sinkFull ∨ ∃ lack, e = .lacking lack ∧ d.Affects a.table a.program lack

section Written
variable (s : Sink) (text : String) (failure : Option CodegenError)

theorem bytes_front : ∃ rest, (s.write text failure).bytes ++ rest = text.toUTF8 := by
  refine ⟨text.toUTF8.extract (s.taken text) text.toUTF8.size, ?_⟩
  have taken : s.taken text ≤ text.toUTF8.size := by
    unfold Sink.taken
    split
    · exact Nat.le_refl _
    · exact Nat.min_le_right _ _
  calc text.toUTF8.extract 0 (s.taken text) ++
        text.toUTF8.extract (s.taken text) text.toUTF8.size
      = text.toUTF8.extract 0 text.toUTF8.size :=
        (ByteArray.extract_eq_extract_append_extract _ (Nat.zero_le _) taken).symm
    _ = text.toUTF8 := ByteArray.extract_zero_size

/-- A text that the sink accepts is written whole. -/
theorem bytes_of_accepts (h : s.accepts text = true) :
    (s.write text failure).bytes = text.toUTF8 := by
  have taken : s.taken text = text.toUTF8.size := by
    unfold Sink.accepts at h
    unfold Sink.taken
    split
    · rfl
    · rename_i n limit
      simp only [limit, decide_eq_true_eq] at h
      exact Nat.min_eq_right h
  change text.toUTF8.extract 0 (s.taken text) = text.toUTF8
  rw [taken]
  exact ByteArray.extract_zero_size

theorem bytes_unlimited : (Sink.write {} text failure).bytes = text.toUTF8 :=
  bytes_of_accepts {} text failure rfl

theorem result_write : (s.write text failure).result =
    if s.accepts text then
      match failure with
      | none => .ok ()
      | some e => .error (.lacking e)
    else .error .sinkFull := rfl

end Written

section Generate
variable {t : ClassTable} {layout : Layout} {p : Program .checked}

/-- A module that is generated without a failure is truncated at most. -/
theorem truncated_of_generate (ok : (Codegen.generate t layout p).2 = none) (d : Damage)
    (s : Sink) :
    Truncated ⟨t, p, layout⟩ d ((Analysis.damaged ⟨t, p, layout⟩ d).generate s) := by
  have written : ((Analysis.damaged ⟨t, p, layout⟩ d).generate s) =
      s.write (Codegen.generate (d.table t) layout (d.program p)).1.text
        (Codegen.generate (d.table t) layout (d.program p)).2 := rfl
  have module : (Analysis.generate ⟨t, p, layout⟩ {}).bytes =
      (Codegen.generate t layout p).1.text.toUTF8 := bytes_unlimited _ _
  rcases generate_damaged d t layout p with same | ⟨lack, failure, affected, rest, text⟩
  · rw [same, ok] at written
    rw [written]
    constructor
    · rw [module]
      exact bytes_front _ _ _
    · intro finished
      rw [module]
      refine bytes_of_accepts _ _ _ ?_
      by_contra refused
      rw [result_write, if_neg refused] at finished
      cases finished
    · intro e failed
      rw [result_write] at failed
      split at failed
      · cases failed
      · exact Or.inl (Except.error.inj failed).symm
  · rw [failure] at written
    rw [written]
    constructor
    · rw [module, ← text]
      obtain ⟨more, front⟩ := bytes_front s _ (some lack)
      exact ⟨more ++ rest.toUTF8, by rw [← ByteArray.append_assoc, front]; rfl⟩
    · intro finished
      rw [result_write] at finished
      split at finished <;> cases finished
    · intro e failed
      rw [result_write] at failed
      split at failed
      · exact Or.inr ⟨lack, (Except.error.inj failed).symm, affected⟩
      · exact Or.inl (Except.error.inj failed).symm

/-- Without damage the sink decides. -/
theorem generate_ok_iff (ok : (Codegen.generate t layout p).2 = none) (n : Nat) :
    (Analysis.generate ⟨t, p, layout⟩ { limit := some n }).result = .ok () ↔
      (Analysis.generate ⟨t, p, layout⟩ {}).bytes.size ≤ n := by
  have module : (Analysis.generate ⟨t, p, layout⟩ {}).bytes =
      (Codegen.generate t layout p).1.text.toUTF8 := bytes_unlimited _ _
  have written : (Analysis.generate ⟨t, p, layout⟩ { limit := some n }).result =
      if Sink.accepts ⟨some n⟩ (Codegen.generate t layout p).1.text then .ok ()
      else .error .sinkFull := by
    simp only [Analysis.generate, result_write, ok]
  rw [module, written]
  constructor
  · intro finished
    split at finished
    · rename_i accepted
      exact of_decide_eq_true accepted
    · cases finished
  · exact fun fits => if_pos (decide_eq_true fits)

end Generate

/-- Whatever damage is done to the results of an accepted program and whatever the sink takes, what
is written is a front part of the module; without damage it is the module, if the sink takes it. A
limit of 0 is left out, since what it accepts may be damaged from the start. -/
theorem damage_truncates {o : CheckOptions} (positive : o.maxErrors ≠ some 0) {p : Program .bare}
    {c : Checked} (accepted : (check o p).result = .ok c) (s : Layout.Strategy) :
    ∃ t layout, Layout.compute s c.table = (t, .ok layout) ∧
      (Analysis.generate ⟨t, c.program, layout⟩ {}).result = .ok () ∧
      (Analysis.generate ⟨t, c.program, layout⟩ {}).bytes =
        (Codegen.generate t layout c.program).1.text.toUTF8 ∧
      (∀ (d : Damage) (sink : Sink), Truncated ⟨t, c.program, layout⟩ d
        ((Analysis.damaged ⟨t, c.program, layout⟩ d).generate sink)) ∧
      ∀ n, (Analysis.generate ⟨t, c.program, layout⟩ { limit := some n }).result = .ok () ↔
        (Analysis.generate ⟨t, c.program, layout⟩ {}).bytes.size ≤ n := by
  obtain ⟨_, known⟩ := exists_accepted positive accepted
  obtain ⟨t, layout, computed, prepared⟩ := known.prepared s
  have ok := (known.usable prepared).generate
  refine ⟨t, layout, computed, ?_, bytes_unlimited _ _, truncated_of_generate ok,
    generate_ok_iff ok⟩
  simp only [Analysis.generate, result_write, ok]
  rfl

theorem damage_truncates_branches :
    ∃ c, (check {} branches).result = .ok c ∧
      ∃ t layout, Layout.compute .sharedRootCounter c.table = (t, .ok layout) ∧
        (Analysis.generate ⟨t, c.program, layout⟩ {}).result = .ok () ∧
        (Analysis.generate ⟨t, c.program, layout⟩ {}).bytes =
          (Codegen.generate t layout c.program).1.text.toUTF8 ∧
        (∀ (d : Damage) (sink : Sink), Truncated ⟨t, c.program, layout⟩ d
          ((Analysis.damaged ⟨t, c.program, layout⟩ d).generate sink)) ∧
        ∀ n, (Analysis.generate ⟨t, c.program, layout⟩ { limit := some n }).result = .ok () ↔
          (Analysis.generate ⟨t, c.program, layout⟩ {}).bytes.size ≤ n := by
  obtain ⟨c, accepted⟩ := exists_of_isOk (x := (check {} branches).result) (by decide +kernel)
  exact ⟨c, accepted, damage_truncates (by decide) accepted .sharedRootCounter⟩

end MiniJava
