import MiniJava.Proofs.Steps.Skeleton

/-!
# Errors stay in their statement

A statement that is given up halfway leaves the class table as a good one would: it marks its target,
if that stands for something, and nothing else. So what is reported of the other statements and of
the return expressions does not depend on its expressions.
-/
namespace MiniJava

open Check

section Visits
variable {vs ws : List Visit}

/-- Two programs of one form visit the same places and have the same targets. -/
def SameForm (vs ws : List Visit) : Prop :=
  vs.map (Visit.onExprs fun _ => .node 0 () .tt) = ws.map (Visit.onExprs fun _ => .node 0 () .tt)

theorem SameForm.take (h : SameForm vs ws) (j : Nat) : SameForm (vs.take j) (ws.take j) := by
  have front := congrArg (List.take j) h
  rwa [← List.map_take, ← List.map_take] at front

theorem SameForm.tableAfter (h : SameForm vs ws) (t : ClassTable) :
    tableAfter t vs = tableAfter t ws := by
  rw [← tableAfter_onExprs (fun _ => .node 0 () .tt) vs, h, tableAfter_onExprs]

theorem SameForm.place (h : SameForm vs ws) (j : Nat) :
    vs[j]?.map Visit.place = ws[j]?.map Visit.place := by
  have entry := congrArg (fun us => us[j]?.map Visit.place) h
  simp only [List.getElem?_map, Option.map_map] at entry
  exact entry

/-- Where the steps are equal as well, so are the visits. -/
theorem SameForm.getElem?_eq (h : SameForm vs ws) {j : Nat}
    (steps : (vs.map (·.step))[j]? = (ws.map (·.step))[j]?) : vs[j]? = ws[j]? := by
  have places := h.place j
  rw [List.getElem?_map, List.getElem?_map] at steps
  cases hv : vs[j]? with
  | none =>
    rw [hv] at steps
    exact (Option.map_eq_none_iff.mp steps.symm).symm
  | some v =>
    rw [hv] at steps places
    obtain ⟨w, hw, step⟩ := Option.map_eq_some_iff.mp steps.symm
    rw [hw] at places ⊢
    obtain ⟨place, step'⟩ := w
    obtain rfl : place = v.place := (Option.some.inj places).symm
    obtain rfl : step' = v.step := step
    rfl

/-- Equal steps report the same, if everything has one form. -/
theorem SameForm.course (h : SameForm vs ws) (t : ClassTable) {j : Nat}
    (steps : (vs.map (·.step))[j]? = (ws.map (·.step))[j]?) :
    (course t vs)[j]? = (course t ws)[j]? := by
  rw [getElem?_course, getElem?_course, h.getElem?_eq steps, (h.take j).tableAfter]

end Visits

/-- Programs with one skeleton have one class table, and their bodies have one form. -/
theorem sameForm_of_skeleton {o : CheckOptions} {p p' : Program .bare}
    {q q' : Program .registered} {st st' : State} (ready : ready? o p = some (q, st))
    (ready' : ready? o p' = some (q', st')) (skeleton : p.skeleton = p'.skeleton) :
    st = st' ∧ SameForm q.visits q'.visits := by
  have first := ready?_onExprs (fun _ => .node 0 () .tt) o p
  have second := ready?_onExprs (fun _ => .node 0 () .tt) o p'
  rw [ready, Option.map_some] at first
  rw [ready', Option.map_some] at second
  have same := first.symm.trans ((congrArg (ready? o) skeleton).trans second)
  obtain ⟨programs, states⟩ := Prod.mk.inj (Option.some.inj same)
  refine ⟨states, ?_⟩
  rw [SameForm, ← Program.visits_onExprs, ← Program.visits_onExprs, programs]

/-- Two programs that get to the bodies and differ in the expressions of one step only: what is
reported is what the steps report, step by step, and all other steps report the same. -/
theorem errors_stay_in_their_statement {strict : Bool} {p p' : Program .bare}
    {q q' : Program .registered} {st st' : State}
    (ready : ready? ⟨none, strict⟩ p = some (q, st))
    (ready' : ready? ⟨none, strict⟩ p' = some (q', st')) {n : Nat}
    (skeleton : p.skeleton = p'.skeleton) (others : ∀ j, j ≠ n → p.steps[j]? = p'.steps[j]?) :
    ((check ⟨none, strict⟩ p).report.findings = (course st.table q.visits).flatten ∧
      q.visits.map (·.step) = p.steps) ∧
    ((check ⟨none, strict⟩ p').report.findings = (course st'.table q'.visits).flatten ∧
      q'.visits.map (·.step) = p'.steps) ∧
    (course st.table q.visits).length = (course st'.table q'.visits).length ∧
      ∀ j, j ≠ n → (course st.table q.visits)[j]? = (course st'.table q'.visits)[j]? := by
  have whole := check_course ready
  have whole' := check_course ready'
  obtain ⟨rfl, form⟩ := sameForm_of_skeleton ready ready' skeleton
  refine ⟨whole, whole', ?_, ?_⟩
  · have lengths := congrArg List.length form
    rw [List.length_map, List.length_map] at lengths
    rw [length_course, length_course, lengths]
  · intro j other
    apply form.course
    rw [whole.2, whole'.2]
    exact others j other

/-- Assigns to `a` before it is read. -/
def assignedFirst (value : ExprForm Unit) : Program .bare where
  main := ⟨1, "Main", "args", [⟨1, .int, "a"⟩], [
    .assign 2 "a" () (plain value), .print 3 (plain (.name "a"))]⟩
  classes := []

theorem errors_stay_in_their_statement_assigned :
    ∃ q st q' st', ready? ⟨none, true⟩ (assignedFirst (.int 1)) = some (q, st) ∧
      ready? ⟨none, true⟩ (assignedFirst (.newObject "Nothing")) = some (q', st') ∧
      (assignedFirst (.int 1)).skeleton = (assignedFirst (.newObject "Nothing")).skeleton ∧
      (∀ j, j ≠ 0 → (assignedFirst (.int 1)).steps[j]? =
        (assignedFirst (.newObject "Nothing")).steps[j]?) ∧
      ∀ j, j ≠ 0 → (course st.table q.visits)[j]? = (course st'.table q'.visits)[j]? := by
  obtain ⟨⟨q, st⟩, ready⟩ := Option.isSome_iff_exists.mp
    (show (ready? ⟨none, true⟩ (assignedFirst (.int 1))).isSome = true by decide +kernel)
  obtain ⟨⟨q', st'⟩, ready'⟩ := Option.isSome_iff_exists.mp
    (show (ready? ⟨none, true⟩ (assignedFirst (.newObject "Nothing"))).isSome = true by
      decide +kernel)
  have others : ∀ j, j ≠ 0 → (assignedFirst (.int 1)).steps[j]? =
      (assignedFirst (.newObject "Nothing")).steps[j]? := by
    rintro (_ | j) hj
    · exact absurd rfl hj
    · rfl
  exact ⟨q, st, q', st', ready, ready', rfl, others,
    (errors_stay_in_their_statement ready ready' rfl others).2.2.2⟩

end MiniJava
