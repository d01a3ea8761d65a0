import MiniJava.Proofs.Accepted
import MiniJava.Proofs.Layout.Dispatch

/-!
# Virtual dispatch

Layouts of accepted programs. A call that was resolved to a method loads, from the table of any
class the object may have, the nearest declaration of that method, and casts it to the type it has.
-/
namespace MiniJava

open Check ClassTable

/-- The classes of an accepted program are laid out. -/
theorem Check.Accepted.layout {p : Program .bare} {c : Checked} {t : ClassTable}
    (known : Accepted p c t) (s : Layout.Strategy) :
    ∃ layout, Layout.compute s c.table = (Layout.assign s c.table, .ok layout) ∧
      SameDeclarations (Layout.assign s c.table) c.table ∧
      Layout.Complete (Layout.assign s c.table) layout := by
  have outline := known.same.outline.symm
  have wf : c.table.WellFormed := known.wellFormed.of_sameOutline outline
  have listed : c.table.InheritanceListed := InheritanceListed.of_sameOutline known.listed outline
  have agree : c.table.OverridesAgree :=
    OverridesAgree.of_sameDeclarations known.agree known.same.symm
  obtain ⟨layout, computed, complete⟩ := Layout.compute_eq_ok wf listed agree s
  exact ⟨layout, computed, Layout.sameDeclarations_assign wf s, complete⟩

/-- An accepted program is laid out under both strategies, and every table of methods dispatches. -/
theorem virtual_dispatch {o : CheckOptions} (positive : o.maxErrors ≠ some 0) {p : Program .bare}
    {c : Checked} (accepted : (check o p).result = .ok c) (s : Layout.Strategy) :
    ∃ t layout, Layout.compute s c.table = (t, .ok layout) ∧ SameDeclarations t c.table ∧
      Layout.Complete t layout := by
  obtain ⟨_, known⟩ := exists_accepted positive accepted
  exact ⟨_, known.layout s⟩

theorem virtual_dispatch_branches :
    ∃ c, (check {} branches).result = .ok c ∧
      ∃ t layout, Layout.compute .sharedRootCounter c.table = (t, .ok layout) ∧
        SameDeclarations t c.table ∧ Layout.Complete t layout := by
  obtain ⟨c, accepted⟩ := exists_of_isOk (x := (check {} branches).result) (by decide +kernel)
  exact ⟨c, accepted, virtual_dispatch (by decide) accepted .sharedRootCounter⟩

end MiniJava
