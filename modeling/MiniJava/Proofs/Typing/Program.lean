import MiniJava.Proofs.Hierarchy
import MiniJava.Proofs.Typing.Statement

/-!
# Checking programs

The hierarchy leaves on every class its number and on every method its place in the class table. The
rules find both by name, and where every class has been entered the two agree. Then the bodies of a
program are judged one after the other.
-/
namespace MiniJava.Typing

open ClassTable
open Check

variable {t : ClassTable}

theorem Declared.unique {cls m : Name} {r q : MethodRef} (h : Declared t cls m r)
    (h' : Declared t cls m q) : r = q := by
  obtain ⟨c, i⟩ := r
  obtain ⟨d, j⟩ := q
  obtain rfl := Option.some.inj (h.1.symm.trans h'.1)
  obtain rfl := Option.some.inj (h.2.symm.trans h'.2)
  rfl

/-- A method that has been entered is the one that is declared under its name. -/
theorem declared_of_entered (wf : t.WellFormed) {cls : Name} {id : ClassId}
    (hcls : t.find? cls = some id) {m : MethodDecl .registered}
    (entered : MethodEntered id (t.methods id) m) :
    ∃ r, m.note = some r ∧ r.cls = id ∧ Declared t cls m.name r ∧ ∃ k, t.method? r = some k := by
  obtain ⟨i, k, note, hk, name⟩ := entered
  have hmethod : t.method? ⟨id, i⟩ = some k := hk
  exact ⟨⟨id, i⟩, note, rfl, ⟨hcls, name ▸ wf.ownMethod?_of_method? hmethod⟩, k, hmethod⟩

theorem methodTyped_iff {cls : Name} {m : MethodDecl .bare} {r : MethodRef}
    (h : Declared t cls m.name r) :
    MethodTyped t cls m ↔ BodyTyped (methodScope t r) m.body ∧ ResultFits t r m.result := by
  constructor
  · rintro ⟨q, hq, typed⟩
    exact h.unique hq ▸ typed
  · exact fun typed => ⟨r, h, typed⟩

theorem classEntered_of_sameOutline {u : ClassTable} (same : SameOutline u t)
    {c : ClassDecl .registered} (h : ClassEntered t c) : ClassEntered u c := by
  obtain ⟨id, k, note, hk, name, main, methods⟩ := h
  obtain ⟨l, hl, outline⟩ := same.symm.exists_get? hk
  have hname : l.name = k.name := by
    have heq := congrArg Class.name outline
    exact heq
  refine ⟨id, l, note, hl, hname.trans name, (same.isMain id).trans main, ?_⟩
  intro m hm
  obtain ⟨i, k', hnote, hk', hname'⟩ := methods m hm
  have hmethod : t.method? ⟨id, i⟩ = some k' := hk'
  obtain ⟨l', hl', outline'⟩ := same.symm.exists_method? hmethod
  exact ⟨i, l', hnote, hl', (Method.name_eq_of_outline outline').trans hname'⟩

theorem blankMethod_bare (m : MethodDecl .registered) : (blankMethod m).bare = m.bare := by
  simp only [blankMethod, MethodDecl.bare, blankStmts_bare, blank_bare, map_bare_unit,
    Expr.bare_unit]

/-- The value that a method returns. -/
theorem checkResult_judged (forest : t.Forest) {r : MethodRef} {k : Method}
    (hk : t.method? r = some k) (e : Expr Unit) :
    Judged t (checkResult ⟨r.cls, some r⟩ r e) (fun e' => e'.bare = e) (ResultFits t r e)
      (ExprRecorded (methodScope t r)) := by
  apply Judged.take
  intro u same
  have typed : ExprTyped (methodScope t r) e (typeExpr ⟨u, ⟨r.cls, some r⟩⟩ e) :=
    exprTyped forest same e
  obtain ⟨l, hl, declared⟩ := same.symm.exists_method? hk
  have returnTy : l.returnTy = k.returnTy := by
    have heq := congrArg Method.returnTy declared
    exact heq
  have rule : ResultFits t r e ↔ ∃ i, (typeExpr ⟨u, ⟨r.cls, some r⟩⟩ e).value.note = some i ∧
      Assignable t k.returnTy i.ty := by
    simp only [ResultFits, typed.note, hk, Option.some.injEq, exists_and_left, exists_eq_left']
  rw [rule]
  cases hi : (typeExpr ⟨u, ⟨r.cls, some r⟩⟩ e).value.note with
  | none =>
    simp only [Found.bind_eq, Found.pure_eq, hi, List.append_nil]
    refine ⟨typed.bare, ?_, fun ⟨_, h, _⟩ => (by cases h)⟩
    rw [typed.clean, hi]
    exact ⟨fun h => (by cases h), fun ⟨_, h, _⟩ => (by cases h)⟩
  | some i =>
    have hassign := (remarked same ⟨r.cls, some r⟩).assignable_iff forest k.returnTy i.ty
    have clean : OnlyUninitialized (typeExpr ⟨u, ⟨r.cls, some r⟩⟩ e).findings :=
      typed.clean.mpr (by rw [hi]; rfl)
    have recorded := typed.recorded (by rw [hi]; rfl)
    by_cases ha : u.assignable k.returnTy i.ty = true
    · simp only [Found.bind_eq, Found.pure_eq, hi, hl, returnTy, if_pos ha, List.append_nil]
      exact ⟨typed.bare, ⟨fun _ => ⟨i, rfl, hassign.mp ha⟩, fun _ => clean⟩, fun _ => recorded⟩
    · have fault : Fault (.returnTypeMismatch l.name k.returnTy i.ty) := by intro y; simp
      have unfit : ¬ ∃ j, some i = some j ∧ Assignable t k.returnTy j.ty :=
        fun ⟨_, h, fit⟩ => ha (hassign.mpr (Option.some.inj h ▸ fit))
      simp only [Found.bind_eq, Found.pure_eq, hi, hl, returnTy, if_neg ha, List.append_nil]
      refine ⟨typed.bare, ?_, fun h => absurd h unfit⟩
      rw [onlyUninitialized_append]
      exact ⟨fun h => absurd h.2 (fault.not_uninitialized _), fun h => absurd h unfit⟩

/-- A method with the body and the result that checking has left. -/
def checkedMethod (m : MethodDecl .registered) (r : MethodRef) (body : List (Stmt Note Target))
    (result : Expr Note) : MethodDecl .checked :=
  ⟨m.line, some r, m.returnTy, m.name, m.params, m.vars, body, result⟩

theorem checkedMethod_bare {m : MethodDecl .registered} {r : MethodRef}
    {body : List (Stmt Note Target)} {result : Expr Note} (hbody : body.map Stmt.bare = m.body)
    (hresult : result.bare = m.result) : (checkedMethod m r body result).bare = m.bare := by
  simp only [checkedMethod, MethodDecl.bare, hbody, hresult, map_bare_unit, Expr.bare_unit]

theorem checkMethod_judged (wf : t.WellFormed) {cls : Name} {id : ClassId}
    (hcls : t.find? cls = some id) {m : MethodDecl .registered}
    (entered : MethodEntered id (t.methods id) m) :
    Judged t (checkMethod id m) (fun m' => m'.bare = m.bare) (MethodTyped t cls m.bare)
      (MethodRecorded t cls) := by
  obtain ⟨r, note, rfl, declared, k, hk⟩ := declared_of_entered wf hcls entered
  have forest : t.Forest := wf.forest
  -- the value is not looked at if the report has become full in the body
  have result : ∀ body : List (Stmt Note Target), body.map Stmt.bare = m.body →
      Judged t (do
        if ← isFull then return checkedMethod m r body (blank m.result)
        else do
          let value ← checkResult ⟨r.cls, some r⟩ r m.result
          return checkedMethod m r body value) (fun m' => m'.bare = m.bare)
        (ResultFits t r m.result)
        (fun m' => ∃ value, ExprRecorded (methodScope t r) value ∧
          m' = checkedMethod m r body value) := by
    intro body hbody
    refine Judged.ifFull ?_ (checkedMethod_bare hbody (blank_bare m.result))
    exact (checkResult_judged forest hk m.result).map (checkedMethod m r body) _
      (fun value hvalue => checkedMethod_bare hbody hvalue) fun value hr => ⟨value, hr, rfl⟩
  have both : Judged t _ _ _ (MethodRecorded t cls) :=
    ((checkStmts_judged forest m.body).bind result).congr Iff.rfl (by
      rintro m' _ ⟨body, hbody, value, hvalue, rfl⟩
      exact ⟨r, rfl, declared, List.forall_mem_append.mpr ⟨hbody, exprRecorded_iff.mpr hvalue⟩⟩)
  have parts : m.bare.body = m.body ∧ m.bare.result = m.result :=
    ⟨map_bare_unit m.body, Expr.bare_unit m.result⟩
  rw [checkMethod, methodTyped_iff declared, parts.1, parts.2]
  refine Judged.ifFull ?_ (blankMethod_bare m)
  simp only [note]
  exact both

theorem checkMethodBodies_judged (wf : t.WellFormed) {cls : Name} {id : ClassId}
    (hcls : t.find? cls = some id) (ms : List (MethodDecl .registered)) :
    (∀ m ∈ ms, MethodEntered id (t.methods id) m) →
      Judged t (checkMethodBodies id ms)
        (fun ms' => ms'.map MethodDecl.bare = ms.map MethodDecl.bare)
        (∀ m ∈ ms.map MethodDecl.bare, MethodTyped t cls m)
        (fun ms' => ∀ m ∈ ms', MethodRecorded t cls m) := by
  induction ms with
  | nil =>
    intro _
    have nothing : Judged t (return [] : CheckM (List (MethodDecl .checked)))
        (fun ms' => ms'.map MethodDecl.bare = []) True
        (fun ms' => ∀ m ∈ ms', MethodRecorded t cls m) :=
      .pure rfl fun m hm => (by cases hm)
    exact nothing.congr ⟨fun _ => trivial, fun _ m hm => (by cases hm)⟩ fun _ _ hr => hr
  | cons m ms ih =>
    intro entered
    rw [checkMethodBodies, List.map_cons, List.forall_mem_cons]
    refine ((checkMethod_judged wf hcls (entered m List.mem_cons_self)).bind fun m' hm' =>
      (ih fun k hk => entered k (List.mem_cons_of_mem m hk)).map (m' :: ·)
        (fun r => ∃ ms', (∀ k ∈ ms', MethodRecorded t cls k) ∧ r = m' :: ms')
        (fun ms' hms' => ?_) fun ms' hr => ⟨ms', hr, rfl⟩).congr Iff.rfl ?_
    · rw [List.map_cons, hm', hms']
    · rintro r _ ⟨m', hm', ms', hms', rfl⟩
      exact List.forall_mem_cons.mpr ⟨hm', hms'⟩

theorem checkClass_judged (wf : t.WellFormed) {c : ClassDecl .registered}
    (entered : ClassEntered t c) :
    Judged t (checkClass c) (fun c' => c'.bare = c.bare)
      (∀ m ∈ c.bare.methods, MethodTyped t c.name m) (ClassRecorded t) := by
  obtain ⟨id, k, note, hk, name, _, methods⟩ := entered
  have hcls : t.find? c.name = some id := wf.find?_eq_some_iff.mpr ⟨k, hk, name⟩
  rw [checkClass]
  simp only [note]
  refine ((checkMethodBodies_judged wf hcls c.methods methods).map
    (fun ms => (⟨c.line, some id, c.name, c.superclass, c.fields, ms⟩ : ClassDecl .checked))
    (ClassRecorded t) (fun ms hms => ?_) fun ms hms => ⟨⟨id, rfl, hcls⟩, hms⟩)
  simp only [ClassDecl.bare, hms]

theorem checkClassBodies_judged (wf : t.WellFormed) (cs : List (ClassDecl .registered)) :
    (∀ c ∈ cs, ClassEntered t c) →
      Judged t (checkClassBodies cs)
        (fun cs' => cs'.map ClassDecl.bare = cs.map ClassDecl.bare)
        (∀ c ∈ cs.map ClassDecl.bare, ∀ m ∈ c.methods, MethodTyped t c.name m)
        (fun cs' => ∀ c ∈ cs', ClassRecorded t c) := by
  induction cs with
  | nil =>
    intro _
    have nothing : Judged t (return [] : CheckM (List (ClassDecl .checked)))
        (fun cs' => cs'.map ClassDecl.bare = []) True (fun cs' => ∀ c ∈ cs', ClassRecorded t c) :=
      .pure rfl fun c hc => (by cases hc)
    exact nothing.congr ⟨fun _ => trivial, fun _ c hc => (by cases hc)⟩ fun _ _ hr => hr
  | cons c cs ih =>
    intro entered
    rw [checkClassBodies, List.map_cons, List.forall_mem_cons]
    refine ((checkClass_judged wf (entered c List.mem_cons_self)).bind fun c' hc' =>
      (ih fun d hd => entered d (List.mem_cons_of_mem c hd)).map (c' :: ·)
        (fun r => ∃ cs', (∀ d ∈ cs', ClassRecorded t d) ∧ r = c' :: cs')
        (fun cs' hcs' => ?_) fun cs' hr => ⟨cs', hr, rfl⟩).congr Iff.rfl ?_
    · rw [List.map_cons, hc', hcs']
    · rintro r _ ⟨c', hc', cs', hcs', rfl⟩
      exact List.forall_mem_cons.mpr ⟨hc', hcs'⟩

/-- The body pass is right about a program whose classes have all been entered. -/
theorem bodies_judged (wf : t.WellFormed) {q : Program .registered}
    (entered : ∀ c ∈ q.classes, ClassEntered t c) :
    Judged t (bodies q) (fun q' => q'.bare = q.bare) (ProgramTyped t q.bare)
      (ProgramRecorded t) := by
  have forest : t.Forest := wf.forest
  rw [bodies]
  refine ((checkStmts_judged forest q.main.body).bind fun body hbody =>
    (checkClassBodies_judged wf q.classes entered).map
      (fun classes => (⟨⟨q.main.line, q.main.name, q.main.param, q.main.vars, body⟩, classes⟩ :
        Program .checked))
      (fun q' => ∃ classes, (∀ c ∈ classes, ClassRecorded t c) ∧
        q' = ⟨⟨q.main.line, q.main.name, q.main.param, q.main.vars, body⟩, classes⟩)
      (fun classes hclasses => ?_) fun classes hr => ⟨classes, hr, rfl⟩).congr ?_ ?_
  · simp only [Program.bare, MainClass.bare, hbody, hclasses, map_bare_unit]
  · constructor
    · intro h
      refine ⟨?_, h.methods⟩
      have main := h.main
      simp only [Program.bare, MainClass.bare, map_bare_unit] at main
      exact main
    · rintro ⟨main, methods⟩
      refine ⟨?_, methods⟩
      simp only [Program.bare, MainClass.bare, map_bare_unit]
      exact main
  · rintro q' _ ⟨body, hbody, classes, hclasses, rfl⟩
    exact ⟨hbody, hclasses⟩

end MiniJava.Typing
