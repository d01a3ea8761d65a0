import MiniJava.Proofs.Accepted
import MiniJava.Proofs.Declarations
import MiniJava.Proofs.Inheritance
import MiniJava.Proofs.Limits.Check
import MiniJava.Proofs.Overrides

/-!
# Passes over a full report

With a limit of 0 the report is full from the start. Then no class is entered but the main class,
and no body is looked at; what is accepted has a class table with that one class.
-/
namespace MiniJava.Check

open ClassTable

variable {α β : Type}

/-- A computation that leaves everything as it is where the report is full. -/
def Idle (x : CheckM α) : Prop := ∀ st, st.report.full = true → (x st).2 = st

namespace Idle

theorem pure (a : α) : Idle (Pure.pure a : CheckM α) := fun _ _ => rfl

theorem bind {x : CheckM α} {f : α → CheckM β} (hx : Idle x) (hf : ∀ a, Idle (f a)) :
    Idle (x >>= f) := by
  intro st full
  change (f (x st).1 (x st).2).2 = st
  rw [hx st full]
  exact hf _ st full

theorem ifFull (x : CheckM α) (a : α) : Idle (do if ← isFull then return a else x) := by
  intro st full
  rw [ifFull_apply, if_pos full]

end Idle

theorem checkStmts_idle (p : Place) (ss : List (Stmt Unit Unit)) : Idle (checkStmts p ss) := by
  cases ss with
  | nil =>
    rw [checkStmts]
    exact .pure _
  | cons s ss =>
    rw [checkStmts]
    exact .ifFull _ _

theorem checkMethodBodies_idle (cls : ClassId) (ms : List (MethodDecl .registered)) :
    Idle (checkMethodBodies cls ms) := by
  induction ms with
  | nil => exact .pure _
  | cons m ms ih =>
    have first : Idle (checkMethod cls m) := by
      rw [checkMethod]
      exact .ifFull _ _
    exact first.bind fun _ => ih.bind fun _ => .pure _

theorem checkClassBodies_idle (cs : List (ClassDecl .registered)) :
    Idle (checkClassBodies cs) := by
  induction cs with
  | nil => exact .pure _
  | cons c cs ih =>
    have first : Idle (checkClass c) := by
      rw [checkClass]
      split
      · exact .pure _
      · exact (checkMethodBodies_idle _ c.methods).bind fun _ => .pure _
    exact first.bind fun _ => ih.bind fun _ => .pure _

theorem bodies_idle (p : Program .registered) : Idle (bodies p) :=
  (checkStmts_idle _ p.main.body).bind fun _ =>
    (checkClassBodies_idle p.classes).bind fun _ => .pure _

/-- No class is entered. -/
theorem enterAll_of_full {r : Report} (full : r.full = true) (t : ClassTable)
    (ds : List (ClassDecl .bare)) : (enterAll t r ds).1 = t := by
  cases ds with
  | nil => rfl
  | cons d ds => rw [enterAll, if_pos full]

section Unreported
variable (strict : Bool) (p : Program .bare)

/-- The main class alone is declared. -/
theorem unreported_outline :
    SameOutline (unreported strict p).table (withInherited (mainOnly p.main)) := by
  have table : (hierarchy (some 0) p).table = withInherited (mainOnly p.main) :=
    congrArg withInherited (enterAll_of_full rfl (mainOnly p.main) p.classes)
  rw [unreported, bodies_idle _ _ rfl, ← table]
  exact declarations_outline strict (hierarchy (some 0) p).program _ (.empty (some 0))

theorem unreported_wellFormed : (unreported strict p).table.WellFormed :=
  (wellFormed_withInherited (wellFormed_mainOnly p.main)).of_sameOutline
    (unreported_outline strict p).symm

theorem unreported_listed : (unreported strict p).table.InheritanceListed :=
  InheritanceListed.of_sameOutline (inheritanceListed_withInherited _)
    (unreported_outline strict p).symm

theorem unreported_size : (unreported strict p).table.size = 1 :=
  (unreported_outline strict p).size.trans (Array.size_mapIdx ..)

/-- Nothing is overridden where no class has a parent. -/
theorem unreported_agree : (unreported strict p).table.OverridesAgree := by
  intro r m q s k _ hq _ _
  obtain ⟨c, hc, _⟩ := get?_of_parent? hq
  have zero : r.cls = 0 := Nat.lt_one_iff.mp (unreported_size strict p ▸ lt_size_of_get? hc)
  rw [zero, (unreported_wellFormed strict p).main_top] at hq
  cases hq

end Unreported

/-- The class table of an accepted program, whatever the limit for errors was. -/
theorem table_of_accepted {o : CheckOptions} {p : Program .bare} {c : Checked}
    (accepted : (check o p).result = .ok c) :
    c.table.WellFormed ∧ c.table.InheritanceListed ∧ c.table.OverridesAgree := by
  by_cases zero : o.maxErrors = some 0
  · -- nothing is reported, and the main class is the only one
    obtain ⟨_, strict⟩ := o
    subst zero
    rw [check_of_zero] at accepted
    obtain rfl := Except.ok.inj accepted
    exact ⟨unreported_wellFormed strict p, unreported_listed strict p, unreported_agree strict p⟩
  · obtain ⟨t, known⟩ := exists_accepted zero accepted
    have outline := known.same.outline.symm
    exact ⟨known.wellFormed.of_sameOutline outline,
      InheritanceListed.of_sameOutline known.listed outline,
      OverridesAgree.of_sameDeclarations known.agree known.same.symm⟩

end MiniJava.Check
