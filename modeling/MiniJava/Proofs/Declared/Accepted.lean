import MiniJava.Proofs.Declared.Faithful
import MiniJava.Proofs.Limits.Check

/-!
# The declarations of an accepted program

Every table that an accepted program is compiled with declares what the program does: the classes
are those of the program in its order, and every method of the table is one that a class of the
program declares.
-/
namespace MiniJava.Check

open ClassTable

/-- The class table that the bodies are checked with is the one that the program declares. -/
theorem mirrors_of_ready? {strict : Bool} {p : Program .bare} {q : Program .registered}
    {st : State} (ready : ready? ⟨none, strict⟩ p = some (q, st)) :
    Mirrors strict p st.table ∧ p.HierarchyRules := by
  simp only [ready?, Bool.and_eq_true, Option.ite_none_right_eq_some, Option.some.injEq,
    Prod.mk.injEq, Report.isClean_iff] at ready
  obtain ⟨⟨⟨clean, clean'⟩, _⟩, _, rfl⟩ := ready
  exact ⟨mirrors_of_clean clean clean', (hierarchy_eq_nil_iff p).mp clean⟩

/-- The class table of an accepted program is the one that the program declares. -/
theorem exists_mirrors {o : CheckOptions} (positive : o.maxErrors ≠ some 0) {p : Program .bare}
    {c : Checked} (accepted : (check o p).result = .ok c) :
    ∃ t, Mirrors o.strict p t ∧ SameDeclarations c.table t ∧ p.HierarchyRules := by
  obtain ⟨limit, strict⟩ := o
  rw [result_eq strict p positive] at accepted
  obtain ⟨q, st, passed, _, rfl⟩ := check_eq_ok_iff.mp accepted
  have ready := ready_of_ready? unlimited_ne passed
  have judged := Typing.bodies_judged ready.wellFormed ready.entered
  obtain ⟨mirrors, rules⟩ := mirrors_of_ready? passed
  exact ⟨_, mirrors, judged.same _ (.refl _), rules⟩

/-- A method of a class table is the one that a class of the program declares. -/
structure DeclaredMethod (u : ClassTable) (r : MethodRef) (m : Method) (d : ClassDecl .bare)
    (k : MethodDecl .bare) : Prop where
  cls : u.nameOf r.cls = d.name
  owner : m.owner = r.cls
  name : m.name = k.name
  locals : m.locals.map (·.name) = (k.params ++ k.vars).map (·.name)

section Mirrors
variable {strict : Bool} {p : Program .bare} {t u : ClassTable} (h : Mirrors strict p t)
include h

theorem Mirrors.get?_cases {c : ClassId} {k : Class} (hk : t.get? c = some k) :
    (c = 0 ∧ k.name = p.main.name ∧ k.methods = []) ∨
      ∃ before, ∃ d ∈ p.classes, p.classes[before.length]? = some d ∧ c = before.length + 1 ∧
        Mirrored strict before c d k := by
  cases c with
  | zero =>
    obtain rfl := Option.some.inj (hk.symm.trans h.main)
    exact Or.inl ⟨rfl, rfl, rfl⟩
  | succ i =>
    have hi : i < p.classes.length :=
      Nat.lt_of_succ_lt_succ (Nat.lt_of_lt_of_eq (lt_size_of_get? hk) h.size)
    have split : p.classes = p.classes.take i ++ p.classes[i] :: p.classes.drop (i + 1) := by
      rw [List.getElem_cons_drop, List.take_append_drop]
    have length : (p.classes.take i).length = i := List.length_take_of_le (Nat.le_of_lt hi)
    obtain ⟨k', hk', mirrored⟩ := h.classes _ _ _ split
    rw [length] at hk' mirrored
    obtain rfl := Option.some.inj (hk.symm.trans hk')
    exact Or.inr ⟨_, _, List.getElem_mem hi, by rw [length]; exact List.getElem?_eq_getElem hi,
      by rw [length], mirrored⟩

theorem Mirrors.names : t.names = p.classNames := by
  refine List.ext_getElem? fun c => ?_
  rw [getElem?_names]
  cases hk : t.get? c with
  | none =>
    have size : t.size ≤ c := Array.getElem?_eq_none_iff.mp hk
    refine (List.getElem?_eq_none ?_).symm
    rwa [Program.classNames, List.length_cons, List.length_map, ← h.size]
  | some k =>
    rcases h.get?_cases hk with ⟨rfl, name, _⟩ | ⟨before, d, _, hd, rfl, mirrored⟩
    · exact congrArg some name
    · rw [Program.classNames, List.getElem?_cons_succ, List.getElem?_map, hd, Option.map_some,
        Option.map_some, mirrored.name]

theorem Mirrors.declaredMethod (same : SameDeclarations u t) {r : MethodRef} {m : Method}
    (hm : u.method? r = some m) :
    ∃ d ∈ p.classes, ∃ k ∈ d.methods, DeclaredMethod u r m d k := by
  obtain ⟨m', hm', declared⟩ := same.exists_method? hm
  obtain ⟨c, hc, methods⟩ := get?_of_method? hm'
  rcases h.get?_cases hc with ⟨_, _, none⟩ | ⟨before, d, hd, _, _, mirrored⟩
  · rw [none] at methods
    cases methods
  · rw [mirrored.methods, List.getElem?_map] at methods
    obtain ⟨k, hk, rfl⟩ := Option.map_eq_some_iff.mp methods
    have locals := congrArg (fun m => (Method.locals m).map (·.name)) declared
    simp only [Method.declared, List.map_map] at locals
    refine ⟨d, hd, k, List.mem_of_getElem? hk, ?_, congrArg Method.owner declared.symm,
      congrArg Method.name declared.symm, ?_⟩
    · rw [same.outline.nameOf, nameOf, hc]
      exact mirrored.name
    · refine locals.symm.trans ?_
      simp only [methodOf, List.map_append, List.map_map]
      rfl

end Mirrors

end MiniJava.Check
