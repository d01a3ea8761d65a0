import Mathlib.Data.List.Nodup
import MiniJava.Proofs.Lines.Compile
import MiniJava.Proofs.Names.Closest
import MiniJava.Proofs.Names.Numbered
import MiniJava.Proofs.Names.Program

/-!
# What a hint is worth

A message about a name that is not known may come with a hint, another name that is. Put in the place
of the first, the hint is found there, and no error about a name is left at that place. The main class
is the exception: it may be hinted at for a new object, and there is no object of it.
-/
namespace MiniJava

open Check ClassTable

section Hints
variable {s : Scope} {x h : Name} {line : Nat} {e : SemanticError}

theorem checkTy_hint {t : ClassTable} (said : ⟨line, e⟩ ∈ (checkTy t line (.object x)).findings)
    (hint : e.hint? = some h) : h ∈ t.names := by
  obtain ⟨y, same⟩ := mem_checkTy said
  obtain rfl := (Finding.mk.inj same).2
  exact Name.mem_of_closest? hint

theorem resolve_hint (said : ⟨line, e⟩ ∈ (s.resolve line x).findings) (hint : e.hint? = some h) :
    h ∈ s.visibleNames := by
  rcases mem_resolve said with same | same
  · obtain rfl := (Finding.mk.inj same).2
    cases hint
  · obtain rfl := (Finding.mk.inj same).2
    exact Name.mem_of_closest? hint

theorem instantiate_hint (said : ⟨line, e⟩ ∈ (s.instantiate line x).findings)
    (hint : e.hint? = some h) : h ∈ s.table.names := by
  rcases mem_instantiate said with same | same
  · obtain rfl := (Finding.mk.inj same).2
    exact Name.mem_of_closest? hint
  · obtain rfl := (Finding.mk.inj same).2
    cases hint

theorem callee_hint {ty : Ty} (said : ⟨line, e⟩ ∈ (s.callee line ty x).findings)
    (hint : e.hint? = some h) : ∃ c, ty.className?.bind s.table.find? = some c ∧
      h ∈ (s.table.visibleMethods c).map (·.name) := by
  rcases mem_callee said with ⟨_, same⟩ | ⟨c, receiver, same⟩
  · obtain rfl := (Finding.mk.inj same).2
    cases hint
  · obtain rfl := (Finding.mk.inj same).2
    exact ⟨c, receiver, Name.mem_of_closest? hint⟩

end Hints

section Candidates
variable {s : Scope} {main x : Name} {line : Nat}

theorem findField?_isSome {t : ClassTable} {c : ClassId}
    (visible : x ∈ (t.visibleFields c).map (·.name)) : (t.findField? c x).isSome = true := by
  obtain ⟨f, hf, rfl⟩ := List.mem_map.mp visible
  obtain ⟨k, hk, hf⟩ := List.mem_flatMap.mp hf
  rw [findField?, List.findSome?_isSome_iff]
  refine ⟨k, hk, ?_⟩
  rw [Option.isSome_map, ownField?, List.findIdx?_isSome, List.any_eq_true]
  exact ⟨f, hf, beq_self_eq_true _⟩

theorem findMethod?_isSome {t : ClassTable} {c : ClassId}
    (visible : x ∈ (t.visibleMethods c).map (·.name)) : (t.findMethod? c x).isSome = true := by
  obtain ⟨m, hm, rfl⟩ := List.mem_map.mp visible
  obtain ⟨k, hk, hm⟩ := List.mem_flatMap.mp hm
  rw [findMethod?, List.findSome?_isSome_iff]
  refine ⟨k, hk, ?_⟩
  rw [Option.isSome_map, ownMethod?, List.findIdx?_isSome, List.any_eq_true]
  exact ⟨m, hm, beq_self_eq_true _⟩

/-- In `main` no field is visible, so a visible name is not that of the parameter. -/
theorem Check.Scope.Stands.resolve_isSome (h : s.Stands main) (visible : x ∈ s.visibleNames) :
    (s.resolve line x).value.isSome = true := by
  rw [Scope.resolve]
  cases here : s.locals.findIdx? (·.name == x) with
  | some i => rfl
  | none =>
    have field : x ∈ (s.table.visibleFields s.place.cls).map (·.name) := by
      rcases List.mem_append.mp visible with loc | field
      · obtain ⟨l, hl, rfl⟩ := List.mem_map.mp loc
        have other := List.findIdx?_eq_none_iff.mp here l hl
        rw [beq_self_eq_true] at other
        cases other
      · exact field
    have noParam : s.isMainParam x = false := by
      obtain ⟨t, p⟩ := s
      cases h.proper with
      | main =>
        rw [visibleFields, flatMap_chain_of_top h.wellFormed.main_top, h.wellFormed.main_fields]
          at field
        cases field
      | method r => rfl
    obtain ⟨r, hr⟩ := Option.isSome_iff_exists.mp (findField?_isSome field)
    simp only [noParam, hr]
    rfl

/-- Of the classes, all but the main class can be instantiated. -/
theorem Check.Scope.Stands.instantiate_isSome_iff (h : s.Stands main) (known : x ∈ s.table.names) :
    (s.instantiate line x).value.isSome = true ↔ x ≠ main := by
  obtain ⟨c, hc⟩ := Option.isSome_iff_exists.mp (h.wellFormed.indexed.find?_isSome_iff.mpr known)
  obtain ⟨k, hk, rfl⟩ := h.exists_main
  have isMain : s.table.isMain c = true ↔ x = k.name := by
    rw [h.wellFormed.isMain_iff]
    constructor
    · rintro rfl
      obtain ⟨k', hk', rfl⟩ := h.wellFormed.find?_eq_some_iff.mp hc
      rw [Option.some.inj (hk.symm.trans hk')]
    · rintro rfl
      have first := h.wellFormed.find?_eq_some_iff.mpr ⟨k, hk, rfl⟩
      exact Option.some.inj (hc.symm.trans first)
  rw [Scope.instantiate, hc]
  cases hm : s.table.isMain c with
  | true => simp [hm, isMain.mp hm]
  | false =>
    have other : x ≠ k.name := fun same => by simp [isMain.mpr same] at hm
    simp [hm, other]

theorem callee_isSome {ty : Ty} {c : ClassId} (receiver : ty.className?.bind s.table.find? = some c)
    (visible : x ∈ (s.table.visibleMethods c).map (·.name)) :
    (s.callee line ty x).value.isSome = true := by
  obtain ⟨r, hr⟩ := Option.isSome_iff_exists.mp (findMethod?_isSome visible)
  obtain ⟨m, hm, _⟩ := exists_method_of_find hr
  simp only [Scope.callee, receiver, hr, hm]
  rfl

theorem resolve_findings_of_found :
    (s.resolve line x).value.isSome = true → (s.resolve line x).findings = [] := by
  rw [Scope.resolve]
  split
  · exact fun _ => rfl
  · split
    · intro found
      cases found
    · split
      · exact fun _ => rfl
      · intro found
        cases found

theorem instantiate_findings_of_found :
    (s.instantiate line x).value.isSome = true → (s.instantiate line x).findings = [] := by
  rw [Scope.instantiate]
  split
  · intro found
    cases found
  · split
    · intro found
      cases found
    · exact fun _ => rfl

theorem callee_findings_of_found {ty : Ty} :
    (s.callee line ty x).value.isSome = true → (s.callee line ty x).findings = [] := by
  rw [Scope.callee]
  split
  · intro found
    cases found
  · split
    · intro found
      cases found
    · exact fun _ => rfl

end Candidates

namespace Lookup
variable {s : Scope} {main x h : Name} {line : Nat} {e : SemanticError} {l : Lookup}

/-- A name that is found is not reported. -/
theorem run_of_found (stands : s.Stands main) (found : (l.run s line x).value = true) :
    (l.run s line x).findings = [] := by
  cases l with
  | type =>
    rw [findings_type]
    have indexed := stands.wellFormed.indexed
    refine (checkTy_eq_nil_iff indexed).mpr fun n same => ?_
    obtain rfl := Ty.object.inj same
    exact indexed.find?_isSome_iff.mp found
  | var =>
    rw [findings_var]
    exact resolve_findings_of_found found
  | created =>
    rw [findings_created]
    exact instantiate_findings_of_found found
  | method receiver =>
    rw [findings_method]
    exact callee_findings_of_found found

/-- A hint is found in the place of the name that was not, unless it is the main class and an object
is to be made of it. -/
theorem found_hint_iff (stands : s.Stands main) (said : ⟨line, e⟩ ∈ (l.run s line x).findings)
    (hint : e.hint? = some h) :
    (l.run s line h).value = true ↔ ¬(l.kind = .created ∧ h = main) := by
  cases l with
  | type =>
    rw [findings_type] at said
    simp [kind, stands.wellFormed.indexed.find?_isSome_iff.mpr (checkTy_hint said hint)]
  | var =>
    rw [findings_var] at said
    simp [kind, stands.resolve_isSome (resolve_hint said hint)]
  | created =>
    rw [findings_created] at said
    simp [kind, stands.instantiate_isSome_iff (instantiate_hint said hint)]
  | method receiver =>
    rw [findings_method] at said
    obtain ⟨c, hc, visible⟩ := callee_hint said hint
    simp [kind, callee_isSome hc visible]

end Lookup

section Limits
variable {o : CheckOptions} {p : Program .bare}

/-- A limited report has nothing that the unlimited one has not. -/
theorem mem_unlimited {f : Finding} (reported : f ∈ (check o p).report.findings) :
    f ∈ (check ⟨none, o.strict⟩ p).report.findings := by
  obtain ⟨_ | _ | k, strict⟩ := o
  · exact reported
  · rw [check_of_zero] at reported
    cases reported
  · rw [findings_limited strict p (Nat.succ_pos k)] at reported
    exact List.mem_of_mem_take reported

theorem quiet_limited {n : Nat} (quiet : Quiet n (check ⟨none, o.strict⟩ p).report.findings) :
    Quiet n (check o p).report.findings :=
  quiet_iff.mpr fun f hf => quiet_iff.mp quiet f (mem_unlimited hf)

/-- The report of a numbered program says the same at other lines. -/
theorem exists_numbered {i : Nat} {f : Finding}
    (reported : (check o p).report.findings[i]? = some f) :
    ∃ n, (check o p.numbered).report.findings[i]? = some ⟨n, f.error⟩ := by
  have same : (check o p.numbered).report.unlined = (check o p).report.unlined := by
    have numbered := check_unlined o p.numbered
    rw [p.unlined_numbered, check_unlined] at numbered
    exact (Verdict.mk.inj numbered).1.symm
  have entry := congrArg (fun r : Report => r.findings[i]?) same
  simp only [Report.unlined, List.getElem?_map, reported, Option.map_some] at entry
  obtain ⟨f', hf', unlined⟩ := Option.map_eq_some_iff.mp entry
  obtain ⟨_, error⟩ := Finding.mk.inj unlined
  obtain ⟨n, e⟩ := f'
  obtain rfl : e = f.error := error
  exact ⟨n, hf'⟩

end Limits

theorem SemanticError.isAboutName_of_hint {e : SemanticError} {h : Name}
    (hint : e.hint? = some h) : e.isAboutName = true := by
  cases e <;> first | rfl | cases hint

/-- No two occurrences stand at one line, so the name at a line is that of its occurrence. -/
theorem rename_own {p : Program .bare} (nodup : (p.occurrences.map (·.line)).Nodup)
    {a : Occurrence} (ha : a ∈ p.occurrences) : p.rename a.line a.name = p := by
  refine Program.rename_eq_self fun b hb line => ?_
  rw [List.inj_on_of_nodup_map nodup hb ha line]

/-- Every message with a hint comes from one occurrence of a name, in a scope that does not depend on
the name: whatever name is put there, of errors about names at that place there is what its lookup
says. The hint is found there and leaves no such error, if and only if it is not the main class in the
place of a class to be instantiated. -/
theorem hint_usable_iff (o : CheckOptions) (p : Program .bare) {i : Nat} {f : Finding} {h : Name}
    (reported : (check o p).report.findings[i]? = some f) (hint : f.error.hint? = some h) :
    ∃ (a : Occurrence) (s : Scope) (l : Lookup),
      a ∈ p.numbered.occurrences ∧ l.kind = a.kind ∧
      (check o p.numbered).report.findings[i]? = some ⟨a.line, f.error⟩ ∧
      ⟨a.line, f.error⟩ ∈ (l.run s a.line a.name).findings ∧
      (∀ z, nameErrorsAt a.line
        (check ⟨none, o.strict⟩ (p.numbered.rename a.line z)).report.findings =
          (l.run s a.line z).findings) ∧
      ((l.run s a.line h).value = true ∧ (∀ limit, nameErrorsAt a.line
        (check ⟨limit, o.strict⟩ (p.numbered.rename a.line h)).report.findings = []) ↔
          ¬(a.kind = .created ∧ h = p.main.name)) := by
  have nodup := p.nodup_numbered
  have about := SemanticError.isAboutName_of_hint hint
  obtain ⟨n, numbered⟩ := exists_numbered reported
  have said := mem_unlimited (List.mem_of_getElem? numbered)
  obtain ⟨a, ha, rfl, s, stands, asked⟩ := exists_asked nodup said about
  have heard : ⟨a.line, f.error⟩ ∈ nameErrorsAt a.line
      (check ⟨none, o.strict⟩ (p.numbered.rename a.line a.name)).report.findings := by
    rw [rename_own nodup ha]
    exact List.mem_filter.mpr ⟨said, by simp [about]⟩
  rcases asked with silent | ⟨l, kind, asked⟩
  · rw [silent a.name] at heard
    cases heard
  · rw [asked] at heard
    refine ⟨a, s, l, ha, kind, numbered, heard, asked, ?_⟩
    have found_iff := Lookup.found_hint_iff stands heard hint
    rw [kind] at found_iff
    refine Iff.trans ⟨And.left, fun found => ⟨found, fun limit => ?_⟩⟩ found_iff
    refine quiet_limited (o := ⟨limit, o.strict⟩) ?_
    rw [Quiet, asked, Lookup.run_of_found stands found]

/-- One statement, in a main class with one variable. -/
def printing (form : ExprForm Unit) : Program .bare where
  main := ⟨1, "Main", "args", [⟨1, .int, "count"⟩], [.print 1 (plain form)]⟩
  classes := []

theorem hint_usable_iff_printing :
    (check {} (printing (.name "cuont"))).report.findings[0]? =
        some ⟨1, .unknownIdentifier "cuont" (some "count")⟩ ∧
      ∃ (a : Occurrence) (s : Scope) (l : Lookup),
        a ∈ (printing (.name "cuont")).numbered.occurrences ∧
        (l.run s a.line "count").value = true ∧ ∀ limit, nameErrorsAt a.line
          (check ⟨limit, false⟩
            ((printing (.name "cuont")).numbered.rename a.line "count")).report.findings = [] := by
  have reported : (check {} (printing (.name "cuont"))).report.findings[0]? =
      some ⟨1, .unknownIdentifier "cuont" (some "count")⟩ := by decide +kernel
  obtain ⟨a, s, l, ha, _, _, _, _, usable⟩ := hint_usable_iff {} _ reported rfl
  have other : ¬(a.kind = .created ∧ "count" = (printing (.name "cuont")).main.name) :=
    fun h => absurd h.2 (by decide)
  exact ⟨reported, a, s, l, ha, usable.mpr other⟩

/-- The only class there is, is suggested, and then it is refused. -/
theorem hint_main_class_refused :
    (check {} (printing (.newObject "Maim"))).report.findings =
        [⟨1, .unknownType "Maim" (some "Main")⟩] ∧
      (check {} (printing (.newObject "Main"))).report.findings =
        [⟨1, .cannotInstantiateMainClass "Main"⟩] := by
  decide +kernel

end MiniJava
