import MiniJava.Proofs.Steps.Order

/-!
# What does not look at bodies

The class hierarchy, the declarations and the overrides read everything of a program but what its
methods do. A step that is checked with other expressions in it may report something else, but it
marks the same target, so it leaves the same class table.
-/
namespace MiniJava

open Check

section OnParts
variable {ν τ : Type} (f : Expr ν → Expr ν) (g : Nat → Name → Name)

mutual

/-- Puts something else for every expression directly inside a statement, and for every name that is
assigned to, at its line. -/
def Stmt.onParts : Stmt ν τ → Stmt ν τ
  | .block line body => .block line (bodyOnParts body)
  | .assign line x note value => .assign line (g line x) note (f value)
  | .arrayAssign line x note index value => .arrayAssign line (g line x) note (f index) (f value)
  | .ifElse line cond yes no => .ifElse line (f cond) yes.onParts no.onParts
  | .while line cond body => .while line (f cond) body.onParts
  | .print line value => .print line (f value)

def bodyOnParts : List (Stmt ν τ) → List (Stmt ν τ)
  | [] => []
  | s :: ss => s.onParts :: bodyOnParts ss

end

def Step.onParts : Step ν → Step ν
  | .block line => .block line
  | .assign line x value => .assign line (g line x) (f value)
  | .arrayAssign line x index value => .arrayAssign line (g line x) (f index) (f value)
  | .condition line cond => .condition line (f cond)
  | .print line value => .print line (f value)
  | .result value => .result (f value)

end OnParts

section OnExprs
variable {ν τ : Type} (f : Expr ν → Expr ν)

def bodyOnExprs (ss : List (Stmt ν τ)) : List (Stmt ν τ) := bodyOnParts f (fun _ x => x) ss

def Step.onExprs (s : Step ν) : Step ν := s.onParts f fun _ x => x

end OnExprs

section OnBodies
variable {N : Notes} (f : List (Stmt N.expr N.target) → List (Stmt N.expr N.target))
  (g : Expr N.expr → Expr N.expr)

/-- Puts something else for the statements and for the return expression. -/
def MethodDecl.onBodies (m : MethodDecl N) : MethodDecl N :=
  { m with body := f m.body, result := g m.result }

def ClassDecl.onBodies (c : ClassDecl N) : ClassDecl N :=
  { c with methods := c.methods.map (MethodDecl.onBodies f g) }

def MainClass.onBodies (m : MainClass N) : MainClass N := { m with body := f m.body }

def Program.onBodies (p : Program N) : Program N :=
  ⟨p.main.onBodies f, p.classes.map (ClassDecl.onBodies f g)⟩

end OnBodies

section OnExprs
variable {N : Notes} (f : Expr N.expr → Expr N.expr)

def MethodDecl.onExprs (m : MethodDecl N) : MethodDecl N := m.onBodies (bodyOnExprs f) f

def ClassDecl.onExprs (c : ClassDecl N) : ClassDecl N := c.onBodies (bodyOnExprs f) f

def Program.onExprs (p : Program N) : Program N := p.onBodies (bodyOnExprs f) f

end OnExprs

def Visit.onStep (f : Step Unit → Step Unit) (v : Visit) : Visit := ⟨v.place, f v.step⟩

def Visit.onExprs (f : Expr Unit → Expr Unit) (v : Visit) : Visit := v.onStep (Step.onExprs f)

/-- A program without its expressions: the declarations, and the statements with their lines, their
forms and the names that they assign to. -/
def Program.skeleton (p : Program .bare) : Program .bare := p.onExprs fun _ => .node 0 () .tt

section Steps
variable {ν τ : Type} (f : Expr ν → Expr ν) (g : Nat → Name → Name)

mutual

theorem Stmt.steps_onParts :
    ∀ s : Stmt ν τ, (s.onParts f g).steps = s.steps.map (Step.onParts f g)
  | .block line body => by
    rw [Stmt.onParts, Stmt.steps, Stmt.steps, List.map_cons, bodySteps_onParts body]
    rfl
  | .assign .. => rfl
  | .arrayAssign .. => rfl
  | .ifElse line cond yes no => by
    rw [Stmt.onParts, Stmt.steps, Stmt.steps, List.map_cons, List.map_append,
      Stmt.steps_onParts yes, Stmt.steps_onParts no]
    rfl
  | .while line cond body => by
    rw [Stmt.onParts, Stmt.steps, Stmt.steps, List.map_cons, Stmt.steps_onParts body]
    rfl
  | .print .. => rfl

theorem bodySteps_onParts :
    ∀ ss : List (Stmt ν τ), bodySteps (bodyOnParts f g ss) = (bodySteps ss).map (Step.onParts f g)
  | [] => rfl
  | s :: ss => by
    rw [bodyOnParts, bodySteps, bodySteps, List.map_append, Stmt.steps_onParts s,
      bodySteps_onParts ss]

end

variable {f g}

mutual

/-- A statement is the same if its steps are. -/
theorem Stmt.onParts_eq_self :
    ∀ s : Stmt ν τ, (∀ k ∈ s.steps, k.onParts f g = k) → s.onParts f g = s
  | .block line body => by
    rw [Stmt.steps, List.forall_mem_cons]
    rintro ⟨_, inner⟩
    rw [Stmt.onParts, bodyOnParts_eq_self body inner]
  | .assign line x note value => by
    rw [Stmt.steps, List.forall_mem_singleton, Step.onParts, Step.assign.injEq]
    rintro ⟨_, target, value⟩
    rw [Stmt.onParts, target, value]
  | .arrayAssign line x note index value => by
    rw [Stmt.steps, List.forall_mem_singleton, Step.onParts, Step.arrayAssign.injEq]
    rintro ⟨_, target, index, value⟩
    rw [Stmt.onParts, target, index, value]
  | .ifElse line cond yes no => by
    rw [Stmt.steps, List.forall_mem_cons, List.forall_mem_append, Step.onParts,
      Step.condition.injEq]
    rintro ⟨⟨_, cond⟩, left, right⟩
    rw [Stmt.onParts, cond, Stmt.onParts_eq_self yes left, Stmt.onParts_eq_self no right]
  | .while line cond body => by
    rw [Stmt.steps, List.forall_mem_cons, Step.onParts, Step.condition.injEq]
    rintro ⟨⟨_, cond⟩, inner⟩
    rw [Stmt.onParts, cond, Stmt.onParts_eq_self body inner]
  | .print line value => by
    rw [Stmt.steps, List.forall_mem_singleton, Step.onParts, Step.print.injEq]
    rintro ⟨_, value⟩
    rw [Stmt.onParts, value]

theorem bodyOnParts_eq_self :
    ∀ ss : List (Stmt ν τ), (∀ k ∈ bodySteps ss, k.onParts f g = k) → bodyOnParts f g ss = ss
  | [] => fun _ => rfl
  | s :: ss => by
    rw [bodySteps, List.forall_mem_append]
    rintro ⟨first, rest⟩
    rw [bodyOnParts, Stmt.onParts_eq_self s first, bodyOnParts_eq_self ss rest]

end

end Steps

section Visits
variable {f : List (Stmt Unit Unit) → List (Stmt Unit Unit)} {g : Expr Unit → Expr Unit}
  {k : Step Unit → Step Unit} (body : ∀ ss, bodySteps (f ss) = (bodySteps ss).map k)
  (result : ∀ e, k (.result e) = .result (g e))
include body result

theorem MethodDecl.steps_onBodies (m : MethodDecl .registered) :
    (m.onBodies f g).steps = m.steps.map k := by
  rw [steps, steps, List.map_append, List.map_singleton, result, ← body]
  rfl

theorem MethodDecl.visits_onBodies (cls : ClassId) (m : MethodDecl .registered) :
    (m.onBodies f g).visits cls = (m.visits cls).map (Visit.onStep k) := by
  have note : (m.onBodies f g).note = m.note := rfl
  rw [visits, visits, note, steps_onBodies body result]
  cases m.note with
  | none => rfl
  | some ref =>
    simp only [List.map_map]
    rfl

theorem ClassDecl.visits_onBodies (c : ClassDecl .registered) :
    (c.onBodies f g).visits = c.visits.map (Visit.onStep k) := by
  have note : (c.onBodies f g).note = c.note := rfl
  have methods : (c.onBodies f g).methods = c.methods.map (MethodDecl.onBodies f g) := rfl
  rw [visits, visits, note, methods]
  cases c.note with
  | none => rfl
  | some id =>
    simp only [List.flatMap_map, List.map_flatMap, MethodDecl.visits_onBodies body result]

theorem Program.visits_onBodies (q : Program .registered) :
    (q.onBodies f g).visits = q.visits.map (Visit.onStep k) := by
  simp only [onBodies, MainClass.onBodies, visits, body, List.map_append, List.map_map,
    List.flatMap_map, List.map_flatMap, ClassDecl.visits_onBodies body result]
  rfl

end Visits

theorem Program.visits_onExprs (f : Expr Unit → Expr Unit) (q : Program .registered) :
    (q.onExprs f).visits = q.visits.map (Visit.onExprs f) :=
  visits_onBodies (bodySteps_onParts f _) (fun _ => rfl) q

section Passes
variable (f : List (Stmt Unit Unit) → List (Stmt Unit Unit)) (g : Expr Unit → Expr Unit)

theorem keepMethods_onBodies (cls : Name) (id : ClassId) (fields : List Field) (kept : List Method)
    (ms : List (MethodDecl .bare)) :
    keepMethods cls id fields kept (ms.map (MethodDecl.onBodies f g)) =
      ⟨((keepMethods cls id fields kept ms).value.1,
          (keepMethods cls id fields kept ms).value.2.map (MethodDecl.onBodies f g)),
        (keepMethods cls id fields kept ms).findings⟩ := by
  induction ms generalizing kept with
  | nil => rfl
  | cons m ms ih =>
    have name : (m.onBodies f g).name = m.name := rfl
    rw [List.map_cons, keepMethods, keepMethods, name]
    cases clash? cls fields kept m.name with
    | some e =>
      simp only [ih, Found.bind_eq, Found.pure_eq]
      rfl
    | none =>
      have line : (m.onBodies f g).line = m.line := rfl
      have returnTy : (m.onBodies f g).returnTy = m.returnTy := rfl
      simp only [line, returnTy, ih, Found.bind_eq, Found.pure_eq]
      rfl

theorem unregistered_onBodies (d : ClassDecl .bare) :
    unregistered (d.onBodies f g) = (unregistered d).onBodies f g := by
  simp only [unregistered, registerClass, ClassDecl.onBodies, List.map_map]
  rfl

theorem enter_onBodies (t : ClassTable) (d : ClassDecl .bare) :
    enter t (d.onBodies f g) =
      ⟨((enter t d).value.1, (enter t d).value.2.onBodies f g), (enter t d).findings⟩ := by
  have name : (d.onBodies f g).name = d.name := rfl
  have fields : (d.onBodies f g).fields = d.fields := rfl
  have parent : parentOf t (d.onBodies f g) = parentOf t d := rfl
  have methods : (d.onBodies f g).methods = d.methods.map (MethodDecl.onBodies f g) := rfl
  rw [enter, enter, name, fields, parent, methods, unregistered_onBodies]
  cases t.find? d.name with
  | some _ => rfl
  | none =>
    simp only [keepMethods_onBodies, Found.bind_eq, Found.pure_eq]
    rfl

theorem enterAll_onBodies (t : ClassTable) (r : Report) (ds : List (ClassDecl .bare)) :
    enterAll t r (ds.map (ClassDecl.onBodies f g)) =
      ((enterAll t r ds).1, (enterAll t r ds).2.1,
        (enterAll t r ds).2.2.map (ClassDecl.onBodies f g)) := by
  induction ds generalizing t r with
  | nil => rfl
  | cons d ds ih =>
    rw [List.map_cons, enterAll, enterAll]
    by_cases full : r.full = true
    · rw [if_pos full, if_pos full, ← List.map_cons, List.map_map, List.map_map]
      exact congrArg (t, r, ·) (List.map_congr_left fun d _ => unregistered_onBodies f g d)
    · rw [if_neg full, if_neg full]
      simp only [enter_onBodies, ih]
      rfl

theorem hierarchy_onBodies (limit : Option Nat) (p : Program .bare) :
    hierarchy limit (p.onBodies f g) =
      ⟨(hierarchy limit p).table, (hierarchy limit p).program.onBodies f g,
        (hierarchy limit p).report⟩ := by
  simp only [hierarchy, Program.onBodies, enterAll_onBodies]
  rfl

theorem declareMethods_onBodies (t : ClassTable) (ms : List (MethodDecl .registered)) :
    declareMethods t (ms.map (MethodDecl.onBodies f g)) = declareMethods t ms := by
  induction ms generalizing t with
  | nil => rfl
  | cons m ms ih =>
    have locals : methodLocals t (m.onBodies f g) = methodLocals t m := rfl
    have note : (m.onBodies f g).note = m.note := rfl
    simp only [List.map_cons, declareMethods, note, locals, ih]

theorem declareClass_onBodies (strict : Bool) (t : ClassTable) (d : ClassDecl .registered) :
    declareClass strict t (d.onBodies f g) = declareClass strict t d := by
  simp only [declareClass, ClassDecl.onBodies, declareMethods_onBodies]

theorem declareClasses_onBodies (strict : Bool) (t : ClassTable) (r : Report)
    (ds : List (ClassDecl .registered)) :
    declareClasses strict t r (ds.map (ClassDecl.onBodies f g)) = declareClasses strict t r ds := by
  induction ds generalizing t r with
  | nil => rfl
  | cons d ds ih => simp only [List.map_cons, declareClasses, declareClass_onBodies, ih]

theorem declarations_onBodies (strict : Bool) (q : Program .registered) (t : ClassTable)
    (r : Report) : declarations strict (q.onBodies f g) t r = declarations strict q t r := by
  simp only [declarations, Program.onBodies, declareClasses_onBodies]
  rfl

/-- Whether the bodies are checked, and with which class table, does not depend on the bodies. -/
theorem ready?_onBodies (o : CheckOptions) (p : Program .bare) :
    ready? o (p.onBodies f g) = (ready? o p).map fun r => (r.1.onBodies f g, r.2) := by
  simp only [ready?, hierarchy_onBodies, declarations_onBodies]
  split <;> rfl

end Passes

theorem ready?_onExprs (f : Expr Unit → Expr Unit) (o : CheckOptions) (p : Program .bare) :
    ready? o (p.onExprs f) = (ready? o p).map fun r => (r.1.onExprs f, r.2) :=
  ready?_onBodies (bodyOnExprs f) f o p

theorem Step.target?_onExprs {ν : Type} (f : Expr ν → Expr ν) (s : Step ν) :
    (s.onExprs f).target? = s.target? := by
  cases s <;> rfl

theorem Visit.after_onExprs (f : Expr Unit → Expr Unit) (t : ClassTable) (v : Visit) :
    (v.onExprs f).after t = v.after t := by
  rw [after_eq, after_eq, value_lookUp, value_lookUp, onExprs, onStep, Step.target?_onExprs]

/-- The class table on the way does not depend on expressions. -/
theorem tableAfter_onExprs (f : Expr Unit → Expr Unit) (vs : List Visit) :
    ∀ t, tableAfter t (vs.map (Visit.onExprs f)) = tableAfter t vs := by
  induction vs with
  | nil => exact fun t => rfl
  | cons v vs ih =>
    intro t
    rw [List.map_cons, tableAfter, List.foldl_cons, Visit.after_onExprs]
    exact ih (v.after t)

end MiniJava
