import MiniJava.Check.Analysis
import MiniJava.Proofs.Declarations
import MiniJava.Proofs.Inheritance
import MiniJava.Proofs.Overrides
import MiniJava.Proofs.Typing.Program

/-!
# Programs that are accepted

The bodies are checked if none of the passes before has reported anything. Then the class table is
well-formed, its overrides agree and every declaration has been entered, so the body pass is right
about the program; if it reports nothing either, the program is accepted.
-/
namespace MiniJava.Check

open ClassTable

/-- What the body pass starts from, if no pass before it has reported anything. -/
def ready? (o : CheckOptions) (p : Program .bare) : Option (Program .registered × State) :=
  let h := hierarchy o.maxErrors p
  let (t, r) := declarations o.strict h.program h.table h.report
  let r' := overrides t r
  if h.report.isClean && r.isClean && r'.isClean then some (h.program, ⟨t, r'⟩) else none

/-- What the body pass makes of a program. -/
def conclude (b : Program .checked × State) : Verdict :=
  if b.2.report.isClean then ⟨b.2.report, .ok ⟨b.2.table, b.1⟩⟩
  else ⟨b.2.report, .error ⟨.bodies⟩⟩

theorem report_conclude (b : Program .checked × State) : (conclude b).report = b.2.report := by
  rw [conclude]
  split <;> rfl

theorem check_of_ready? {o : CheckOptions} {p : Program .bare} {q : Program .registered}
    {st : State} (h : ready? o p = some (q, st)) : check o p = conclude (bodies q st) := by
  simp only [ready?, Bool.and_eq_true, Option.ite_none_right_eq_some, Option.some.injEq,
    Prod.mk.injEq] at h
  obtain ⟨⟨⟨clean₁, clean₂⟩, clean₃⟩, rfl, rfl⟩ := h
  simp only [check, clean₁, clean₂, clean₃, if_true]
  rfl

/-- A program that is not ready is rejected by an earlier pass. -/
theorem check_of_not_ready {o : CheckOptions} {p : Program .bare} (h : ready? o p = none) :
    ∃ pass, pass ≠ .bodies ∧ (check o p).result = .error ⟨pass⟩ := by
  simp only [ready?, ite_eq_right_iff, reduceCtorEq, imp_false, Bool.and_eq_true, not_and] at h
  dsimp only [check]
  split
  · rename_i clean₁
    split
    · rename_i clean₂
      rw [if_neg (h ⟨clean₁, clean₂⟩)]
      exact ⟨.overrides, by decide, rfl⟩
    · exact ⟨.declarations, by decide, rfl⟩
  · exact ⟨.hierarchy, by decide, rfl⟩

/-- A program is accepted if it is ready for the body pass and that reports nothing. -/
theorem check_eq_ok_iff {o : CheckOptions} {p : Program .bare} {c : Checked} :
    (check o p).result = .ok c ↔
      ∃ q st, ready? o p = some (q, st) ∧ (bodies q st).2.report.isClean = true ∧
        c = ⟨(bodies q st).2.table, (bodies q st).1⟩ := by
  cases h : ready? o p with
  | none =>
    obtain ⟨pass, _, hpass⟩ := check_of_not_ready h
    rw [hpass]
    exact ⟨fun h => (by cases h), fun ⟨_, _, h, _⟩ => (by cases h)⟩
  | some qst =>
    obtain ⟨q, st⟩ := qst
    rw [check_of_ready? h, conclude]
    cases clean : (bodies q st).2.report.isClean with
    | true =>
      constructor
      · exact fun hc => ⟨q, st, rfl, clean, (Except.ok.inj hc).symm⟩
      · rintro ⟨q', st', heq, _, rfl⟩
        obtain ⟨rfl, rfl⟩ := Prod.mk.inj (Option.some.inj heq)
        rfl
    | false =>
      constructor
      · intro hc
        cases hc
      · rintro ⟨q', st', heq, clean', _⟩
        obtain ⟨rfl, rfl⟩ := Prod.mk.inj (Option.some.inj heq)
        rw [clean] at clean'
        cases clean'

/-- What is accepted is accepted without a finding. -/
theorem findings_eq_nil_of_ok {o : CheckOptions} {p : Program .bare} {c : Checked}
    (h : (check o p).result = .ok c) : (check o p).report.findings = [] := by
  obtain ⟨q, st, ready, clean, _⟩ := check_eq_ok_iff.mp h
  rw [check_of_ready? ready, report_conclude]
  exact Report.isClean_iff.mp clean

/-- A class table that the body pass is given for a program. -/
structure Ready (o : CheckOptions) (p : Program .bare) (q : Program .registered) (st : State) :
    Prop where
  wellFormed : st.table.WellFormed
  listed : st.table.InheritanceListed
  locals : st.table.LocalsFit
  agree : st.table.OverridesAgree
  entered : ∀ c ∈ q.classes, ClassEntered st.table c
  bare : q.bare = p
  clean : st.report.findings = []
  limit : st.report.limit = o.maxErrors
  entry : (st.table.get? 0).bind (·.entry) =
    some { param := p.main.param, locals := p.main.vars.map (localOf false) }
  locals_nodup : (p.main.vars.map (·.name)).Nodup

theorem ready_of_ready? {o : CheckOptions} (positive : o.maxErrors ≠ some 0) {p : Program .bare}
    {q : Program .registered} {st : State} (h : ready? o p = some (q, st)) : Ready o p q st := by
  have limit₁ := hierarchy_limit o.maxErrors p
  have bare := hierarchy_bare o.maxErrors p
  have entered := hierarchy_entered positive (p := p)
  have entry := hierarchy_entry o.maxErrors p
  have wellFormed := hierarchy_wellFormed o.maxErrors p
  have listed : (hierarchy o.maxErrors p).table.InheritanceListed :=
    hierarchy_inheritanceListed o.maxErrors p
  have locals := hierarchy_localsFit o.maxErrors p
  simp only [ready?, Bool.and_eq_true, Option.ite_none_right_eq_some, Option.some.injEq,
    Prod.mk.injEq, Report.isClean_iff] at h
  generalize hierarchy o.maxErrors p = hi at h limit₁ bare entered entry wellFormed listed locals
  obtain ⟨fs, hfs⟩ := declarations_addAll o.strict hi.program hi.table hi.report
  have outline := declarations_outline o.strict hi.program hi.table hi.report
  have locals₂ := declarations_localsFit o.strict hi.program hi.table hi.report locals
  have main := @declarations_main o.strict hi.program hi.table hi.report _ entry
  generalize declarations o.strict hi.program hi.table hi.report = d at h hfs outline locals₂ main
  obtain ⟨t, r⟩ := d
  obtain ⟨⟨⟨clean₁, clean₂⟩, clean₃⟩, rfl, rfl⟩ := h
  dsimp only at hfs outline locals₂ main clean₂ clean₃
  have limit₂ : r.limit = o.maxErrors := by
    rw [hfs, Report.limit_addAll, limit₁]
  have limit₃ : (overrides t r).limit = o.maxErrors := by
    rw [overrides, Report.limit_addAll, limit₂]
  have open₂ : r.Open := Or.inr ⟨clean₂, limit₂ ▸ positive⟩
  have open₃ : (overrides t r).Open := Or.inr ⟨clean₃, limit₃ ▸ positive⟩
  obtain ⟨entry, nodup⟩ := main open₂ clean₂
  have mains : hi.program.main.vars = p.main.vars ∧ hi.program.main.param = p.main.param := by
    rw [← bare]
    exact ⟨rfl, rfl⟩
  rw [mains.1] at entry nodup
  exact
    { wellFormed := wellFormed.of_sameOutline outline.symm
      listed := listed.of_sameOutline outline.symm
      locals := locals₂
      agree := (overridesAgree_iff locals₂).mp (open₃.findings_eq_nil_of_addAll clean₃).2
      entered := fun c hc => Typing.classEntered_of_sameOutline outline (entered clean₁ c hc)
      bare
      clean := clean₃
      limit := limit₃
      entry
      locals_nodup := nodup }

/-- What is known of a program that was accepted; `t` is the class table before the bodies. -/
structure Accepted (p : Program .bare) (c : Checked) (t : ClassTable) : Prop where
  wellFormed : t.WellFormed
  listed : t.InheritanceListed
  locals : t.LocalsFit
  agree : t.OverridesAgree
  same : SameDeclarations c.table t
  bare : c.program.bare = p
  typed : Typing.ProgramTyped t p
  recorded : Typing.ProgramRecorded t c.program
  entry : (t.get? 0).bind (·.entry) =
    some { param := p.main.param, locals := p.main.vars.map (localOf false) }
  locals_nodup : (p.main.vars.map (·.name)).Nodup

/-- With a limit of 0 nothing is ever reported, and being accepted says nothing. -/
theorem exists_accepted {o : CheckOptions} (positive : o.maxErrors ≠ some 0) {p : Program .bare}
    {c : Checked} (h : (check o p).result = .ok c) : ∃ t, Accepted p c t := by
  obtain ⟨q, st, hready, clean, rfl⟩ := check_eq_ok_iff.mp h
  have ready := ready_of_ready? positive hready
  have judged := Typing.bodies_judged ready.wellFormed ready.entered
  have same : SameDeclarations st.table st.table := .refl _
  obtain ⟨fs, hfs, _, sound⟩ := judged.findings st same
  have clean := Report.isClean_iff.mp clean
  have isOpen : (bodies q st).2.report.Open := by
    refine Or.inr ⟨clean, ?_⟩
    rw [hfs, Report.limit_addAll, ready.limit]
    exact positive
  have none : fs = [] := ((hfs ▸ isOpen).findings_eq_nil_of_addAll (hfs ▸ clean)).2
  obtain ⟨typed, recorded⟩ := sound isOpen (none ▸ onlyUninitialized_nil)
  exact ⟨st.table,
    { wellFormed := ready.wellFormed
      listed := ready.listed
      locals := ready.locals
      agree := ready.agree
      same := judged.same st same
      bare := (judged.always st same).trans ready.bare
      typed := ready.bare ▸ typed
      recorded
      entry := ready.entry
      locals_nodup := ready.locals_nodup }⟩

section Sample

def plain (form : ExprForm Unit) : Expr Unit := .node 1 () form

def returning (name : Name) (params : List VarDecl) (form : ExprForm Unit) : MethodDecl .bare :=
  ⟨1, (), .int, name, params, [], [], plain form⟩

/-- Two branches of one tree, declared in turns: `B` and `D` below it, and `C`. -/
def branches : Program .bare where
  main := ⟨1, "Main", "args", [⟨1, .object "A", "a"⟩], [
    .assign 1 "a" () (plain (.newObject "D")),
    .print 1 (plain (.send (plain (.name "a")) "f" [plain (.int 1)]))]⟩
  classes := [
    ⟨1, (), "A", none, [⟨1, .int, "v"⟩],
      [returning "f" [⟨1, .int, "x"⟩] (.binary .add (plain (.name "v")) (plain (.name "x"))),
        returning "g" [] (.name "v")]⟩,
    ⟨1, (), "B", some "A", [⟨1, .boolean, "w"⟩],
      [returning "h" [] (.send (plain .this) "g" []),
        returning "f" [⟨1, .int, "y"⟩] (.name "y")]⟩,
    ⟨1, (), "C", some "A", [], [returning "k" [] (.int 3), returning "g" [] (.int 4)]⟩,
    ⟨1, (), "D", some "B", [⟨1, .intArray, "u"⟩],
      [returning "h" [] (.lookup (plain (.name "u")) (plain (.name "v")))]⟩]

theorem exists_of_isOk {ε α : Type} {x : Except ε α} (h : x.isOk = true) : ∃ a, x = .ok a := by
  cases x with
  | ok a => exact ⟨a, rfl⟩
  | error e => cases h

end Sample

end MiniJava.Check
