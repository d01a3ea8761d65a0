import MiniJava.Proofs.Findings

/-!
# Reports with a limit

A report with a limit takes the first findings only, and once it is full it stays as it is. A
computation that looks at its report only to see whether that is full may stop early, but then
nothing it would still find has room. `Truncates` says so of a computation, compared with its value
and its findings where nothing is dropped.
-/
namespace MiniJava

namespace Report

/-- A report in which nothing has been found yet. -/
def empty (limit : Option Nat) : Report := { limit }

theorem add_of_full {r : Report} (h : r.full = true) (f : Finding) : r.add f = r := if_pos h

theorem addAll_of_full {r : Report} (h : r.full = true) (fs : List Finding) : r.addAll fs = r := by
  induction fs with
  | nil => rfl
  | cons f fs ih => exact (congrArg (addAll · fs) (add_of_full h f)).trans ih

/-- A report that has room left had room before. -/
theorem not_full_of_addAll {r : Report} {fs : List Finding} (h : (r.addAll fs).full = false) :
    r.full = false := by
  cases full : r.full with
  | false => rfl
  | true =>
    rw [addAll_of_full full, full] at h
    cases h

/-- What a limited report takes is the front part of what there is. -/
theorem findings_addAll_of_limit {r : Report} {k : Nat} (h : r.limit = some k)
    (fs : List Finding) :
    (r.addAll fs).findings = r.findings ++ fs.take (k - r.findings.length) := by
  induction fs generalizing r with
  | nil => simp
  | cons f fs ih =>
    by_cases room : r.findings.length < k
    · have taken : r.add f = { r with findings := r.findings ++ [f] } := by
        have not_full : r.full = false := by simp [full, h, room]
        simp [add, not_full]
      have left : k - r.findings.length = (k - (r.add f).findings.length) + 1 := by
        simp only [taken, List.length_append, List.length_singleton]
        omega
      calc (r.addAll (f :: fs)).findings
          = ((r.add f).addAll fs).findings := rfl
        _ = (r.add f).findings ++ fs.take (k - (r.add f).findings.length) :=
            ih ((limit_add r f).trans h)
        _ = r.findings ++ (f :: fs).take (k - r.findings.length) := by
            rw [left, List.take_succ_cons, taken]
            simp
    · have full : r.full = true := by simp [full, h, Nat.le_of_not_lt room]
      rw [addAll_of_full full, Nat.sub_eq_zero_of_le (Nat.le_of_not_lt room), List.take_zero,
        List.append_nil]

theorem findings_empty_addAll_none (fs : List Finding) : ((empty none).addAll fs).findings = fs :=
  findings_addAll_of_unlimited rfl fs

theorem findings_empty_addAll_some (k : Nat) (fs : List Finding) :
    ((empty (some k)).addAll fs).findings = fs.take k :=
  findings_addAll_of_limit rfl fs

theorem empty_open {limit : Option Nat} (positive : limit ≠ some 0) : (empty limit).Open :=
  Or.inr ⟨rfl, positive⟩

/-- A report that takes something is clean only if there was nothing to take. -/
theorem isClean_addAll_iff {limit : Option Nat} (positive : limit ≠ some 0) {fs : List Finding} :
    ((empty limit).addAll fs).isClean = true ↔ fs = [] := by
  rw [isClean_iff]
  cases limit with
  | none => rw [findings_empty_addAll_none]
  | some k =>
    have hk : k ≠ 0 := fun h => positive (congrArg some h)
    rw [findings_empty_addAll_some, List.take_eq_nil_iff]
    exact or_iff_right hk

end Report

/-- The report takes what the whole run finds, in order and as far as it has room; unless that
fills it, the value is the one of the whole run. -/
structure Truncates {α : Type} (run : Report → α × Report) (whole : Found α) : Prop where
  report : ∀ r, (run r).2 = r.addAll whole.findings
  value : ∀ r, (run r).2.full = false → (run r).1 = whole.value

namespace Truncates
variable {α β : Type}

theorem found (x : Found α) : Truncates (fun r => (x.value, r.addAll x.findings)) x :=
  ⟨fun _ => rfl, fun _ _ => rfl⟩

/-- Two runs after one another. If the first fills the report, the second may start from another
value, but it cannot report anything. -/
theorem andThen {run : Report → α × Report} {whole : Found α} (h : Truncates run whole)
    {next : α → Report → β × Report} {rest : α → Found β} (h' : ∀ a, Truncates (next a) (rest a)) :
    Truncates (fun r => next (run r).1 (run r).2) (whole >>= rest) := by
  have report : ∀ r, (next (run r).1 (run r).2).2 = r.addAll (whole >>= rest).findings := by
    intro r
    rw [(h' (run r).1).report, Found.findings_bind, Report.addAll_append, ← h.report r]
    cases full : (run r).2.full with
    | true => rw [Report.addAll_of_full full, Report.addAll_of_full full]
    | false => rw [h.value r full]
  refine ⟨report, ?_⟩
  intro r room
  have before : (run r).2.full = false := by
    rw [(h' (run r).1).report] at room
    exact Report.not_full_of_addAll room
  calc (next (run r).1 (run r).2).1
      = (rest (run r).1).value := (h' _).value _ room
    _ = (rest whole.value).value := by rw [h.value r before]
    _ = (whole >>= rest).value := rfl

/-- A run that is left out if the report is full already. -/
theorem unlessFull {run : Report → α × Report} {whole : Found α} (h : Truncates run whole)
    (a : α) : Truncates (fun r => if r.full then (a, r) else run r) whole := by
  constructor
  · intro r
    cases full : r.full with
    | true => simp only [if_true, Report.addAll_of_full full]
    | false => simp only [Bool.false_eq_true, if_false, h.report r]
  · intro r room
    cases full : r.full with
    | true =>
      simp only [full, if_true] at room
      cases room
    | false =>
      simp only [full, Bool.false_eq_true, if_false] at room ⊢
      exact h.value r room

theorem map {run : Report → α × Report} {whole : Found α} (h : Truncates run whole) (f : α → β) :
    Truncates (fun r => (f (run r).1, (run r).2)) ⟨f whole.value, whole.findings⟩ :=
  ⟨h.report, fun r room => congrArg f (h.value r room)⟩

section Empty
variable {run : Report → α × Report} {whole : Found α}

/-- Without a limit the run is the whole run. -/
theorem eq_of_unlimited (h : Truncates run whole) :
    run (.empty none) = (whole.value, (Report.empty none).addAll whole.findings) := by
  refine Prod.ext (h.value _ ?_) (h.report _)
  rw [h.report, Report.full, Report.limit_addAll]
  rfl

theorem findings_of_unlimited (h : Truncates run whole) :
    (run (.empty none)).2.findings = whole.findings := by
  rw [h.eq_of_unlimited, Report.findings_empty_addAll_none]

/-- A limited report takes what it has room for of the unlimited one. -/
theorem report_empty (h : Truncates run whole) (limit : Option Nat) :
    (run (.empty limit)).2 = (Report.empty limit).addAll (run (.empty none)).2.findings := by
  rw [h.findings_of_unlimited, h.report]

/-- Where nothing is found, a limit makes no difference, as long as it lets something through. -/
theorem eq_of_silent (h : Truncates run whole) {limit : Option Nat} (positive : limit ≠ some 0)
    (silent : (run (.empty none)).2.findings = []) :
    run (.empty limit) = ((run (.empty none)).1, .empty limit) := by
  have report : (run (.empty limit)).2 = .empty limit := by
    rw [h.report_empty, silent]
    rfl
  refine Prod.ext ((h.value _ ?_).trans (congrArg Prod.fst h.eq_of_unlimited).symm) report
  rw [report]
  exact (Report.empty_open positive).not_full

theorem report_of_zero (h : Truncates run whole) : (run (.empty (some 0))).2 = .empty (some 0) :=
  (h.report _).trans (Report.addAll_of_full rfl _)

end Empty

end Truncates

end MiniJava
