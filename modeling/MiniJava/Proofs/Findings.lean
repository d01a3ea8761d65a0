import MiniJava.Check.Body
import MiniJava.Diagnostics

/-!
# Findings of a computation, of a report and of the diagnostics

A computation that binds another one keeps the findings of both, in order. A report is open if
nothing has been dropped from it and the next finding will not be dropped either: it has no limit,
or it is still empty and its limit is not zero. Findings that only say that a variable may be read
too early are told apart from all others, since they do not take the type from an expression.
-/
namespace MiniJava

namespace Found
variable {α β : Type}

@[simp] theorem value_of (a : α) : (Found.of a).value = a := rfl

@[simp] theorem findings_of (a : α) : (Found.of a).findings = [] := rfl

@[simp] theorem value_pure (a : α) : (pure a : Found α).value = a := rfl

@[simp] theorem findings_pure (a : α) : (pure a : Found α).findings = [] := rfl

@[simp] theorem value_bind (x : Found α) (f : α → Found β) :
    (x >>= f).value = (f x.value).value := rfl

@[simp] theorem findings_bind (x : Found α) (f : α → Found β) :
    (x >>= f).findings = x.findings ++ (f x.value).findings := rfl

theorem bind_eq (x : Found α) (f : α → Found β) :
    x >>= f = ⟨(f x.value).value, x.findings ++ (f x.value).findings⟩ := rfl

theorem pure_eq (a : α) : (pure a : Found α) = ⟨a, []⟩ := rfl

end Found

@[simp] theorem findings_report (line : Nat) (e : SemanticError) :
    (report line e).findings = [⟨line, e⟩] := rfl

/-- The finding says that a variable might not have been initialized. -/
def Finding.IsUninitialized (f : Finding) : Prop := ∃ x, f.error = .uninitialized x

/-- There is no finding but those about variables that might not have been initialized. -/
def OnlyUninitialized (fs : List Finding) : Prop := ∀ f ∈ fs, f.IsUninitialized

@[simp] theorem onlyUninitialized_nil : OnlyUninitialized [] := by
  intro f hf
  cases hf

@[simp] theorem onlyUninitialized_append {fs gs : List Finding} :
    OnlyUninitialized (fs ++ gs) ↔ OnlyUninitialized fs ∧ OnlyUninitialized gs :=
  List.forall_mem_append

@[simp] theorem onlyUninitialized_singleton {f : Finding} :
    OnlyUninitialized [f] ↔ f.IsUninitialized := List.forall_mem_singleton

namespace Report

/-- Nothing has been dropped yet, and the next finding will not be. -/
def Open (r : Report) : Prop := r.limit = none ∨ r.findings = [] ∧ r.limit ≠ some 0

theorem Open.not_full {r : Report} (h : r.Open) : r.full = false := by
  rcases h with unlimited | ⟨empty, positive⟩
  · simp [full, unlimited]
  · cases hl : r.limit with
    | none => simp [full, hl]
    | some n =>
      have hn : n ≠ 0 := fun h => positive (by rw [hl, h])
      simp [full, hl, empty, hn]

@[simp] theorem limit_add (r : Report) (f : Finding) : (r.add f).limit = r.limit := by
  unfold add
  split <;> rfl

@[simp] theorem limit_addAll (r : Report) (fs : List Finding) : (r.addAll fs).limit = r.limit := by
  induction fs generalizing r with
  | nil => rfl
  | cons f fs ih => exact (ih (r.add f)).trans (limit_add r f)

@[simp] theorem addAll_nil (r : Report) : r.addAll [] = r := rfl

@[simp] theorem addAll_append (r : Report) (fs gs : List Finding) :
    r.addAll (fs ++ gs) = (r.addAll fs).addAll gs := List.foldl_append ..

/-- Without a limit every finding is kept. -/
theorem findings_addAll_of_unlimited {r : Report} (h : r.limit = none) (fs : List Finding) :
    (r.addAll fs).findings = r.findings ++ fs := by
  induction fs generalizing r with
  | nil => simp
  | cons f fs ih =>
    have hf : r.add f = { r with findings := r.findings ++ [f] } := by simp [add, full, h]
    calc (r.addAll (f :: fs)).findings
        = ((r.add f).addAll fs).findings := rfl
      _ = (r.add f).findings ++ fs := ih ((limit_add r f).trans h)
      _ = r.findings ++ (f :: fs) := by rw [hf]; simp

/-- Findings are never taken back. -/
theorem findings_prefix_addAll (r : Report) (fs : List Finding) :
    r.findings <+: (r.addAll fs).findings := by
  induction fs generalizing r with
  | nil => exact List.prefix_refl _
  | cons f fs ih =>
    refine List.IsPrefix.trans ?_ (ih (r.add f))
    unfold add
    split
    · exact List.prefix_refl _
    · exact List.prefix_append _ _

/-- A report that is open after some findings was open before them, and has kept them all. -/
theorem Open.of_addAll {r : Report} {fs : List Finding} (h : (r.addAll fs).Open) :
    r.Open ∧ (r.addAll fs).findings = r.findings ++ fs := by
  rcases h with unlimited | ⟨empty, positive⟩
  · rw [limit_addAll] at unlimited
    exact ⟨Or.inl unlimited, findings_addAll_of_unlimited unlimited fs⟩
  · rw [limit_addAll] at positive
    have before : r.findings = [] :=
      List.prefix_nil.mp (empty ▸ findings_prefix_addAll r fs)
    have now : r.Open := Or.inr ⟨before, positive⟩
    cases fs with
    | nil => exact ⟨now, by simp⟩
    | cons f fs =>
      exfalso
      have kept : (r.add f).findings = [f] := by simp [add, now.not_full, before]
      have grown : [f] <+: ((r.add f).addAll fs).findings :=
        kept ▸ findings_prefix_addAll (r.add f) fs
      have none_left : ((r.add f).addAll fs).findings = [] := empty
      rw [none_left] at grown
      exact absurd (List.prefix_nil.mp grown) (by simp)

theorem isClean_iff {r : Report} : r.isClean = true ↔ r.findings = [] := by
  simp [isClean]

/-- Where nothing was found at the end, nothing was found on the way. -/
theorem Open.findings_eq_nil_of_addAll {r : Report} {fs : List Finding} (h : (r.addAll fs).Open)
    (clean : (r.addAll fs).findings = []) : r.findings = [] ∧ fs = [] := by
  rw [h.of_addAll.2] at clean
  exact List.append_eq_nil_iff.mp clean

end Report

namespace Diagnostics

theorem messages_reportAll (d : Diagnostics) (fs : List Finding) :
    (d.reportAll fs).messages =
      d.messages ++ fs.map fun f => ⟨f.line, f.error.message⟩ := by
  induction fs generalizing d with
  | nil => exact (List.append_nil _).symm
  | cons f fs ih =>
    calc (d.reportAll (f :: fs)).messages
        = ((d.error f.line f.error.message).reportAll fs).messages := rfl
      _ = _ := ih _
      _ = _ := by simp [error]

theorem count_reportAll (d : Diagnostics) (fs : List Finding) :
    (d.reportAll fs).count = d.count + fs.length := by
  rw [count, messages_reportAll, List.length_append, List.length_map, count]

end Diagnostics

/-- What is only run while the report has room. -/
theorem Check.ifFull_apply {α : Type} (x : CheckM α) (a : α) (st : State) :
    (do if ← isFull then return a else x : CheckM α) st =
      if st.report.full then (a, st) else x st := by
  change (if st.report.full = true then (Pure.pure a : CheckM α) else x) st = _
  split <;> rfl

/-- A report without a limit is never full. -/
theorem Check.ifFull_of_unlimited {α : Type} (x : CheckM α) (a : α) (st : State)
    (unlimited : st.report.limit = none) :
    (do if ← isFull then return a else x : CheckM α) st = x st := by
  have room : st.report.full = false := by rw [Report.full, unlimited]
  rw [ifFull_apply, room]
  rfl

end MiniJava
