import MiniJava.Proofs.Accepted
import MiniJava.Proofs.Limits.Check

/-!
# Bodies as steps

The body pass goes through a program in one order: a statement before the statements inside it, the
condition before the branches, and the return expression after the body of its method. So a program
is a row of steps, each of which is a statement without those inside it, or a return expression.
Without a limit, checking the bodies is nothing but checking these steps one after the other, and
what is reported is what each of them reports, in this order.
-/
namespace MiniJava

open Check

/-- A statement less the statements inside it, or what a method returns. -/
inductive Step (ν : Type) where
  | block (line : Nat)
  | assign (line : Nat) (target : Name) (value : Expr ν)
  | arrayAssign (line : Nat) (target : Name) (index value : Expr ν)
  | condition (line : Nat) (cond : Expr ν)
  | print (line : Nat) (value : Expr ν)
  | result (value : Expr ν)

section Steps
variable {ν τ : Type}

mutual

def Stmt.steps : Stmt ν τ → List (Step ν)
  | .block line body => .block line :: bodySteps body
  | .assign line x _ value => [.assign line x value]
  | .arrayAssign line x _ index value => [.arrayAssign line x index value]
  | .ifElse line cond yes no => .condition line cond :: (yes.steps ++ no.steps)
  | .while line cond body => .condition line cond :: body.steps
  | .print line value => [.print line value]

def bodySteps : List (Stmt ν τ) → List (Step ν)
  | [] => []
  | s :: ss => s.steps ++ bodySteps ss

end

variable {N : Notes}

def MethodDecl.steps (m : MethodDecl N) : List (Step N.expr) := bodySteps m.body ++ [.result m.result]

/-- The main class comes before the others. -/
def Program.steps (p : Program N) : List (Step N.expr) :=
  bodySteps p.main.body ++ p.classes.flatMap fun c => c.methods.flatMap (·.steps)

end Steps

namespace Check

/-- Checks one step as the body pass does. -/
def checkStep (p : Place) : Step Unit → CheckM Unit
  | .block _ => return ()
  | .assign line x value => do
    let _ ← checkAssign p line x value
  | .arrayAssign line x index value => do
    let _ ← take fun t => checkArrayAssign ⟨t, p⟩ line x index value
  | .condition line cond => do
    let _ ← checkCond p line cond
  | .print line value => do
    let value ← typeIn p value
    let _ ← take fun _ => expect line value .int .printRequiresInt
  | .result value =>
    match p.method with
    | none => do
      let _ ← typeIn p value
    | some ref => do
      let _ ← checkResult p ref value

end Check

/-- A step and the body that it belongs to. -/
structure Visit where
  place : Place
  step : Step Unit

namespace Visit

def run (st : State) (v : Visit) : State := (checkStep v.place v.step st).2

/-- What a step reports, and the class table after it. -/
def findings (v : Visit) (t : ClassTable) : List Finding := (run ⟨t, .empty none⟩ v).report.findings

def after (t : ClassTable) (v : Visit) : ClassTable := (run ⟨t, .empty none⟩ v).table

end Visit

/-- A method that is not entered is passed over. -/
def MethodDecl.visits (cls : ClassId) (m : MethodDecl .registered) : List Visit :=
  match m.note with
  | none => []
  | some ref => m.steps.map (Visit.mk ⟨cls, some ref⟩)

def ClassDecl.visits (c : ClassDecl .registered) : List Visit :=
  match c.note with
  | none => []
  | some id => c.methods.flatMap (·.visits id)

def Program.visits (p : Program .registered) : List Visit :=
  (bodySteps p.main.body).map (Visit.mk ⟨0, none⟩) ++ p.classes.flatMap (·.visits)

/-- What each of several steps reports, from a class table that the first one starts with. -/
def course : ClassTable → List Visit → List (List Finding)
  | _, [] => []
  | t, v :: vs => v.findings t :: course (v.after t) vs

namespace Check

/-- Whether a value fits what its method returns. -/
def checkReturned (t : ClassTable) (ref : MethodRef) (value : Expr Note) : Found Unit :=
  match value.note, t.method? ref with
  | some info, some m =>
    if t.assignable m.returnTy info.ty then .of ()
    else report value.line (.returnTypeMismatch m.name m.returnTy info.ty)
  | _, _ => .of ()

theorem mem_checkReturned {t : ClassTable} {ref : MethodRef} {value : Expr Note} {f : Finding}
    (h : f ∈ (checkReturned t ref value).findings) :
    ∃ m ty found, f = ⟨value.line, .returnTypeMismatch m ty found⟩ := by
  rw [checkReturned] at h
  split at h
  · split at h
    · cases h
    · exact ⟨_, _, _, List.mem_singleton.mp h⟩
  · cases h

/-- What a step looks up before it marks its target. -/
def lookUp (p : Place) (t : ClassTable) : Step Unit → Found Target
  | .block _ => .of none
  | .assign line x value => do
    let r ← Typing.assignment t p line x value
    return r.1
  | .arrayAssign line x index value => do
    let _ ← checkArrayAssign ⟨t, p⟩ line x index value
    return none
  | .condition line cond => do
    let cond ← typeExpr ⟨t, p⟩ cond
    let _ ← expect line cond .boolean .conditionMustBeBoolean
    return none
  | .print line value => do
    let value ← typeExpr ⟨t, p⟩ value
    let _ ← expect line value .int .printRequiresInt
    return none
  | .result value =>
    match p.method with
    | none => do
      let _ ← typeExpr ⟨t, p⟩ value
      return none
    | some ref => do
      let value ← typeExpr ⟨t, p⟩ value
      checkReturned t ref value
      return none

/-- The class table once a target has been assigned to. -/
def marked (p : Place) (t : ClassTable) : Target → ClassTable
  | none => t
  | some v => markInitialized t p v

theorem checkAssign_apply (p : Place) (line : Nat) (x : Name) (value : Expr Unit) (st : State) :
    (checkAssign p line x value st).2 =
      ⟨marked p st.table (Typing.assignment st.table p line x value).value.1,
        st.report.addAll (Typing.assignment st.table p line x value).findings⟩ := by
  rw [Typing.checkAssign_eq]
  change Prod.snd ((match (Typing.assignment st.table p line x value).value.1 with
    | none => pure (Typing.assignment st.table p line x value).value
    | some v => do
      mark p v
      return (Typing.assignment st.table p line x value).value :
        CheckM (Target × Expr Note)) ⟨st.table, _⟩) = _
  cases (Typing.assignment st.table p line x value).value.1 <;> rfl

theorem checkResult_apply (p : Place) (ref : MethodRef) (value : Expr Unit) (st : State) :
    (checkResult p ref value st).2 =
      ⟨st.table, st.report.addAll ((typeExpr ⟨st.table, p⟩ value).findings ++
        (checkReturned st.table ref (typeExpr ⟨st.table, p⟩ value).value).findings)⟩ := by
  rw [checkResult, take, checkReturned]
  simp only [Found.findings_bind]
  cases (typeExpr ⟨st.table, p⟩ value).value.note with
  | none => rfl
  | some info =>
    cases st.table.method? ref with
    | none => rfl
    | some m =>
      by_cases fits : st.table.assignable m.returnTy info.ty = true
      · simp [fits]
      · simp [fits]

/-- What is found of an assignment to an element once the array has been looked up. -/
def stored (s : Scope) (line : Nat) (x : Name) (index value : Expr Unit) :
    Option (VarRef × Ty) → List Finding
  | none => []
  | some (v, ty) => (s.checkInitialized line x v).findings ++
    match ty.element? with
    | none => [⟨line, .notAnArray ty⟩]
    | some element =>
      let fits := expect line (typeExpr s index).value .int .indexMustBeInt
      (typeExpr s index).findings ++ (fits.findings ++
        if fits.value then (typeExpr s value).findings ++
          (expect line (typeExpr s value).value element (.incompatibleTypes element)).findings
        else [])

theorem findings_checkArrayAssign (s : Scope) (line : Nat) (x : Name) (index value : Expr Unit) :
    (checkArrayAssign s line x index value).findings = (s.resolve line x).findings ++
      stored s line x index value (s.resolve line x).value := by
  rw [checkArrayAssign, Found.findings_bind]
  cases (s.resolve line x).value with
  | none => rfl
  | some found =>
    simp only [Found.findings_bind, stored]
    cases found.2.element? with
    | none => rfl
    | some element =>
      simp only [Found.findings_bind]
      split
      · simp only [Found.findings_bind, Found.findings_pure, List.append_nil]
      · rfl

/-- A step adds what it finds to the report, and changes the class table by a mark at most. -/
theorem checkStep_apply (p : Place) (s : Step Unit) (st : State) :
    (checkStep p s st).2 =
      ⟨marked p st.table (lookUp p st.table s).value,
        st.report.addAll (lookUp p st.table s).findings⟩ := by
  cases s with
  | block line => rfl
  | assign line x value =>
    simp only [lookUp, Found.value_bind, Found.value_pure, Found.findings_bind,
      Found.findings_pure, List.append_nil, ← checkAssign_apply]
    rfl
  | arrayAssign line x index value =>
    simp only [lookUp, Found.findings_bind, Found.findings_pure, List.append_nil]
    rfl
  | condition line cond =>
    simp only [lookUp, Found.findings_bind, Found.findings_pure, List.append_nil]
    change State.mk st.table (st.report.addAll _) = State.mk st.table (st.report.addAll _)
    simp
  | print line value =>
    simp only [lookUp, Found.findings_bind, Found.findings_pure, List.append_nil,
      Report.addAll_append]
    rfl
  | result value =>
    obtain ⟨cls, _ | ref⟩ := p
    · simp only [lookUp, Found.findings_bind, Found.findings_pure, List.append_nil]
      rfl
    · simp only [lookUp, Found.findings_bind, Found.findings_pure, List.append_nil]
      exact checkResult_apply ⟨cls, some ref⟩ ref value st

end Check

namespace Visit

theorem findings_eq (v : Visit) (t : ClassTable) :
    v.findings t = (lookUp v.place t v.step).findings := by
  rw [findings, run, checkStep_apply]
  exact Report.findings_empty_addAll_none _

theorem after_eq (t : ClassTable) (v : Visit) :
    v.after t = marked v.place t (lookUp v.place t v.step).value := by
  rw [after, run, checkStep_apply]

theorem run_eq (st : State) (v : Visit) :
    run st v = ⟨v.after st.table, st.report.addAll (v.findings st.table)⟩ := by
  rw [findings_eq, after_eq, run, checkStep_apply]

end Visit

/-- The name that a step assigns to as a whole. -/
def Step.target? {ν : Type} : Step ν → Option (Nat × Name)
  | .assign line x _ => some (line, x)
  | _ => none

/-- A step marks what its target resolves to, whatever is wrong with its expressions. -/
theorem value_lookUp (p : Place) (t : ClassTable) (s : Step Unit) :
    (lookUp p t s).value =
      s.target?.bind fun x => (Scope.resolve ⟨t, p⟩ x.1 x.2).value.map (·.1) := by
  cases s with
  | assign line x value =>
    rw [lookUp, Typing.assignment, Found.value_bind, Found.value_pure, Found.value_bind,
      Found.value_bind, Step.target?, Option.bind_some]
    cases (Scope.resolve ⟨t, p⟩ line x).value <;> rfl
  | result value =>
    obtain ⟨cls, _ | ref⟩ := p <;> rfl
  | _ => rfl

/-- The class table after several steps. -/
def tableAfter (t : ClassTable) (vs : List Visit) : ClassTable := vs.foldl (fun t v => v.after t) t

theorem length_course (vs : List Visit) : ∀ t, (course t vs).length = vs.length := by
  induction vs with
  | nil => exact fun t => rfl
  | cons v vs ih => exact fun t => congrArg (· + 1) (ih (v.after t))

/-- A step reports what it reports from the class table that those before it leave. -/
theorem getElem?_course (vs : List Visit) :
    ∀ t (j : Nat), (course t vs)[j]? =
      vs[j]?.map fun v : Visit => v.findings (tableAfter t (vs.take j)) := by
  induction vs with
  | nil => exact fun t j => rfl
  | cons v vs ih =>
    intro t j
    cases j with
    | zero => rfl
    | succ j => exact ih (v.after t) j

theorem course_append (vs ws : List Visit) :
    ∀ t, course t (vs ++ ws) = course t vs ++ course (tableAfter t vs) ws := by
  induction vs with
  | nil => exact fun t => rfl
  | cons v vs ih => exact fun t => congrArg (v.findings t :: ·) (ih (v.after t))

open ClassTable in
/-- Steps change nothing but marks. -/
theorem sameDeclarations_tableAfter (vs : List Visit) :
    ∀ t, SameDeclarations (tableAfter t vs) t := by
  induction vs with
  | nil => exact fun t => .refl t
  | cons v vs ih =>
    intro t
    refine (ih (v.after t)).trans ?_
    rw [Visit.after_eq]
    cases (lookUp v.place t v.step).value with
    | none => exact .refl t
    | some target => exact Typing.Judged.mark.same ⟨t, .empty none⟩ (.refl t)

theorem foldl_run (vs : List Visit) :
    ∀ st, vs.foldl Visit.run st =
      ⟨tableAfter st.table vs, st.report.addAll (course st.table vs).flatten⟩ := by
  induction vs with
  | nil => exact fun st => rfl
  | cons v vs ih =>
    intro st
    rw [List.foldl_cons, ih, Visit.run_eq, course, List.flatten_cons, Report.addAll_append]
    rfl

/-- Without a limit, a computation does to the state what some steps do. -/
structure Runs {α : Type} (x : CheckM α) (vs : List Visit) : Prop where
  state : ∀ st, st.report.limit = none → (x st).2 = vs.foldl Visit.run st

namespace Runs
variable {α β : Type} {x : CheckM α} {vs ws : List Visit}

theorem pure (a : α) : Runs (Pure.pure a : CheckM α) [] := ⟨fun _ _ => rfl⟩

theorem single {v : Visit} (h : ∀ st, (x st).2 = Visit.run st v) : Runs x [v] := ⟨fun st _ => h st⟩

/-- The limit is not touched. -/
theorem limit (h : Runs x vs) {st : State} (unlimited : st.report.limit = none) :
    (x st).2.report.limit = none := by
  rw [h.state st unlimited, foldl_run, Report.limit_addAll]
  exact unlimited

theorem bind {f : α → CheckM β} (hx : Runs x vs) (hf : ∀ a, Runs (f a) ws) :
    Runs (x >>= f) (vs ++ ws) := by
  constructor
  intro st unlimited
  have first := hx.state st unlimited
  have rest := (hf (x st).1).state (x st).2 (hx.limit unlimited)
  rw [List.foldl_append, ← first, ← rest]
  rfl

theorem map (hx : Runs x vs) (f : α → β) : Runs (do let a ← x; return f a) vs :=
  List.append_nil vs ▸ hx.bind fun a => .pure (f a)

theorem ifFull (hx : Runs x vs) (a : α) : Runs (do if ← isFull then return a else x) vs := by
  constructor
  intro st unlimited
  rw [ifFull_of_unlimited x a st unlimited]
  exact hx.state st unlimited

end Runs

section Statements
variable (p : Place)

mutual

theorem checkStmt_runs : ∀ s : Stmt Unit Unit, Runs (checkStmt p s) (s.steps.map (Visit.mk p))
  | .block line body => by
    rw [checkStmt, Stmt.steps, List.map_cons]
    have first : Runs (Pure.pure () : CheckM Unit) [⟨p, .block line⟩] := .single fun st => rfl
    exact first.bind fun _ => (checkStmts_runs body).map _
  | .assign line x _ value => by
    rw [checkStmt, Stmt.steps]
    have first : Runs (checkAssign p line x value) [⟨p, .assign line x value⟩] :=
      .single fun st => rfl
    exact first.map _
  | .arrayAssign line x _ index value => by
    rw [checkStmt, Stmt.steps]
    have first : Runs (take fun t => checkArrayAssign ⟨t, p⟩ line x index value)
        [⟨p, .arrayAssign line x index value⟩] := .single fun st => rfl
    exact first.map _
  | .ifElse line cond yes no => by
    rw [checkStmt, Stmt.steps, List.map_cons, List.map_append]
    have first : Runs (checkCond p line cond) [⟨p, .condition line cond⟩] := .single fun st => rfl
    exact first.bind fun _ => (checkStmt_runs yes).bind fun _ => (checkStmt_runs no).map _
  | .while line cond body => by
    rw [checkStmt, Stmt.steps, List.map_cons]
    have first : Runs (checkCond p line cond) [⟨p, .condition line cond⟩] := .single fun st => rfl
    exact first.bind fun _ => (checkStmt_runs body).map _
  | .print line value => by
    rw [checkStmt, Stmt.steps]
    exact .single fun st => rfl

theorem checkStmts_runs :
    ∀ ss : List (Stmt Unit Unit), Runs (checkStmts p ss) ((bodySteps ss).map (Visit.mk p))
  | [] => by
    rw [checkStmts]
    exact .pure _
  | s :: ss => by
    rw [checkStmts, bodySteps, List.map_append]
    refine Runs.ifFull ?_ _
    exact (checkStmt_runs s).bind fun _ => (checkStmts_runs ss).map _

end

end Statements

theorem checkMethod_runs (cls : ClassId) (m : MethodDecl .registered) :
    Runs (checkMethod cls m) (m.visits cls) := by
  rw [checkMethod, MethodDecl.visits]
  refine Runs.ifFull ?_ _
  cases m.note with
  | none => exact .pure _
  | some ref =>
    simp only [MethodDecl.steps, List.map_append]
    refine (checkStmts_runs ⟨cls, some ref⟩ m.body).bind fun body => ?_
    have last : Runs (checkResult ⟨cls, some ref⟩ ref m.result)
        [⟨⟨cls, some ref⟩, .result m.result⟩] := .single fun st => rfl
    let finish (result : Expr Note) : MethodDecl .checked :=
      ⟨m.line, some ref, m.returnTy, m.name, m.params, m.vars, body, result⟩
    exact (last.map finish).ifFull (finish (blank m.result))

theorem checkMethodBodies_runs (cls : ClassId) (ms : List (MethodDecl .registered)) :
    Runs (checkMethodBodies cls ms) (ms.flatMap (·.visits cls)) := by
  induction ms with
  | nil => exact .pure _
  | cons m ms ih => exact (checkMethod_runs cls m).bind fun _ => ih.map _

theorem checkClass_runs (c : ClassDecl .registered) : Runs (checkClass c) c.visits := by
  rw [checkClass, ClassDecl.visits]
  cases c.note with
  | none => exact .pure _
  | some id => exact (checkMethodBodies_runs id c.methods).map _

theorem checkClassBodies_runs (cs : List (ClassDecl .registered)) :
    Runs (checkClassBodies cs) (cs.flatMap (·.visits)) := by
  induction cs with
  | nil => exact .pure _
  | cons c cs ih => exact (checkClass_runs c).bind fun _ => ih.map _

/-- The body pass is the steps of the program, one after the other. -/
theorem bodies_runs (q : Program .registered) : Runs (bodies q) q.visits := by
  rw [bodies, Program.visits]
  exact (checkStmts_runs ⟨0, none⟩ q.main.body).bind fun _ =>
    (checkClassBodies_runs q.classes).map _

theorem visits_of_entered {t : ClassTable} {id : ClassId} {m : MethodDecl .registered}
    (entered : MethodEntered id (t.methods id) m) :
    ∃ i, m.visits id = m.steps.map (Visit.mk ⟨id, some ⟨id, i⟩⟩) := by
  obtain ⟨i, _, note, _⟩ := entered
  exact ⟨i, by rw [MethodDecl.visits, note]⟩

/-- Where everything is entered, no step is passed over. -/
theorem map_step_visits {t : ClassTable} {q : Program .registered}
    (entered : ∀ c ∈ q.classes, ClassEntered t c) : q.visits.map (·.step) = q.steps := by
  have placed : ∀ (p : Place) (ss : List (Step Unit)), (ss.map (Visit.mk p)).map (·.step) = ss := by
    intro p ss
    rw [List.map_map]
    exact List.map_id' ss
  have classes : ∀ c ∈ q.classes,
      c.visits.map (·.step) = c.methods.flatMap (·.steps) := by
    intro c hc
    obtain ⟨id, _, note, _, _, _, methods⟩ := entered c hc
    rw [ClassDecl.visits, note]
    simp only [List.map_flatMap]
    rw [List.flatMap_def, List.flatMap_def]
    refine congrArg List.flatten (List.map_congr_left fun m hm => ?_)
    obtain ⟨i, visits⟩ := visits_of_entered (methods m hm)
    rw [visits, placed]
  rw [Program.visits, Program.steps, List.map_append, placed, List.map_flatMap, List.flatMap_def,
    List.flatMap_def, List.map_congr_left classes]

/-- The places that bodies stand at. -/
inductive Check.Place.Proper : Place → Prop
  | main : Proper ⟨0, none⟩
  | method (r : MethodRef) : Proper ⟨r.cls, some r⟩

theorem proper_of_entered {t : ClassTable} {q : Program .registered}
    (entered : ∀ c ∈ q.classes, ClassEntered t c) : ∀ v ∈ q.visits, v.place.Proper := by
  intro v hv
  rcases List.mem_append.mp hv with main | other
  · obtain ⟨s, _, rfl⟩ := List.mem_map.mp main
    exact .main
  · obtain ⟨c, hc, hv⟩ := List.mem_flatMap.mp other
    obtain ⟨id, _, note, _, _, _, methods⟩ := entered c hc
    rw [ClassDecl.visits, note] at hv
    obtain ⟨m, hm, hv⟩ := List.mem_flatMap.mp hv
    obtain ⟨i, visits⟩ := visits_of_entered (methods m hm)
    rw [visits] at hv
    obtain ⟨s, _, rfl⟩ := List.mem_map.mp hv
    exact .method ⟨id, i⟩

theorem MethodDecl.steps_bare (m : MethodDecl .registered) : m.bare.steps = m.steps := by
  rw [steps, steps, bare, map_bare_unit, Expr.bare_unit]

theorem Program.steps_bare (q : Program .registered) : q.bare.steps = q.steps := by
  simp only [steps, bare, MainClass.bare, ClassDecl.bare, map_bare_unit, List.flatMap_map,
    MethodDecl.steps_bare]

/-- What is reported of the bodies is what the steps report, in the order of the steps. -/
theorem check_course {strict : Bool} {p : Program .bare} {q : Program .registered} {st : State}
    (ready : ready? ⟨none, strict⟩ p = some (q, st)) :
    (check ⟨none, strict⟩ p).report.findings = (course st.table q.visits).flatten ∧
      q.visits.map (·.step) = p.steps := by
  have known := ready_of_ready? unlimited_ne ready
  constructor
  · rw [check_of_ready? ready, report_conclude, (bodies_runs q).state st known.limit, foldl_run,
      Report.findings_addAll_of_unlimited known.limit, known.clean, List.nil_append]
  · rw [map_step_visits known.entered, ← Program.steps_bare, known.bare]

end MiniJava
