import Mathlib.Data.List.Perm.Basic
import MiniJava.Proofs.Steps.Skeleton

/-!
# Occurrences of names

A program uses names of things that are declared elsewhere: as the type of a declaration, as a
variable, as the class of a new object and as a method. Each such occurrence stands at a line, and
another name can be put at that line.
-/
namespace MiniJava

inductive NameKind where
  | type
  | var
  | created
  | method
  deriving DecidableEq, Repr

structure Occurrence where
  line : Nat
  kind : NameKind
  name : Name
  deriving DecidableEq, Repr

/-- The name `z` at the line `n`, and at every other line the name that stands there. -/
def nameAt (n : Nat) (z : Name) (line : Nat) (x : Name) : Name := if line = n then z else x

def Occurrence.rename (n : Nat) (z : Name) (o : Occurrence) : Occurrence :=
  { o with name := nameAt n z o.line o.name }

theorem map_line_rename (n : Nat) (z : Name) (os : List Occurrence) :
    (os.map (Occurrence.rename n z)).map (·.line) = os.map (·.line) := by
  rw [List.map_map]
  rfl

/-- There is nothing at the line `n` but the name `z`. -/
def Bears (n : Nat) (z : Name) (os : List Occurrence) : Prop :=
  ∀ o ∈ os, o.line = n → o.name = z

section Bears
variable {n : Nat} {z : Name} {os os' : List Occurrence}

@[simp] theorem bears_cons {o : Occurrence} :
    Bears n z (o :: os) ↔ (o.line = n → o.name = z) ∧ Bears n z os :=
  List.forall_mem_cons

@[simp] theorem bears_append : Bears n z (os ++ os') ↔ Bears n z os ∧ Bears n z os' :=
  List.forall_mem_append

theorem bears_flatMap {α : Type} {as : List α} {f : α → List Occurrence} :
    Bears n z (as.flatMap f) ↔ ∀ a ∈ as, Bears n z (f a) := by
  simp only [Bears, List.mem_flatMap, forall_exists_index, and_imp]
  exact ⟨fun h a ha o ho => h o a ha ho, fun h o a ha ho => h a ha o ho⟩

theorem bears_of_not_mem (free : n ∉ os.map (·.line)) : Bears n z os :=
  fun _ ho line => absurd (List.mem_map.mpr ⟨_, ho, line⟩) free

theorem nameAt_of_bears {line : Nat} {x : Name} (h : line = n → x = z) : nameAt n z line x = x := by
  rw [nameAt]
  split
  · rename_i here
    exact (h here).symm
  · rfl

end Bears

section Expressions
variable {ν : Type}

mutual

def Expr.occurrences : Expr ν → List Occurrence
  | .node line _ form => form.occurrences line

/-- The name of a node, then those inside it. -/
def ExprForm.occurrences (line : Nat) : ExprForm ν → List Occurrence
  | .binary _ a b => a.occurrences ++ b.occurrences
  | .lookup a i => a.occurrences ++ i.occurrences
  | .send r m args => ⟨line, .method, m⟩ :: (r.occurrences ++ argOccurrences args)
  | .name x => [⟨line, .var, x⟩]
  | .newObject c => [⟨line, .created, c⟩]
  | .length e | .newIntArray e | .newBooleanArray e | .not e | .bracket e => e.occurrences
  | .int _ | .tt | .ff | .this => []

def argOccurrences : List (Expr ν) → List Occurrence
  | [] => []
  | e :: es => e.occurrences ++ argOccurrences es

end

section Rename
variable (n : Nat) (z : Name)

mutual

/-- Puts the name `z` at the line `n`. -/
def Expr.rename : Expr ν → Expr ν
  | .node line note form => .node line note (form.rename line)

def ExprForm.rename (line : Nat) : ExprForm ν → ExprForm ν
  | .binary op a b => .binary op a.rename b.rename
  | .lookup a i => .lookup a.rename i.rename
  | .send r m args => .send r.rename (nameAt n z line m) (renameArgs args)
  | .length e => .length e.rename
  | .newIntArray e => .newIntArray e.rename
  | .newBooleanArray e => .newBooleanArray e.rename
  | .not e => .not e.rename
  | .bracket e => .bracket e.rename
  | .int i => .int i
  | .tt => .tt
  | .ff => .ff
  | .name x => .name (nameAt n z line x)
  | .this => .this
  | .newObject c => .newObject (nameAt n z line c)

def renameArgs : List (Expr ν) → List (Expr ν)
  | [] => []
  | e :: es => e.rename :: renameArgs es

end

end Rename

section Rename
variable (n : Nat) (z : Name)

mutual

theorem Expr.occurrences_rename :
    ∀ e : Expr ν, (e.rename n z).occurrences = e.occurrences.map (Occurrence.rename n z)
  | .node line _ form => form.occurrences_rename line

theorem ExprForm.occurrences_rename (line : Nat) :
    ∀ form : ExprForm ν, (form.rename n z line).occurrences line =
      (form.occurrences line).map (Occurrence.rename n z)
  | .binary op a b => by
    simp only [ExprForm.rename, ExprForm.occurrences, List.map_append, Expr.occurrences_rename a,
      Expr.occurrences_rename b]
  | .lookup a i => by
    simp only [ExprForm.rename, ExprForm.occurrences, List.map_append, Expr.occurrences_rename a,
      Expr.occurrences_rename i]
  | .send r m args => by
    simp only [ExprForm.rename, ExprForm.occurrences, List.map_append, List.map_cons,
      Expr.occurrences_rename r, argOccurrences_rename args]
    rfl
  | .length e => e.occurrences_rename
  | .newIntArray e => e.occurrences_rename
  | .newBooleanArray e => e.occurrences_rename
  | .not e => e.occurrences_rename
  | .bracket e => e.occurrences_rename
  | .int _ => rfl
  | .tt => rfl
  | .ff => rfl
  | .name _ => rfl
  | .this => rfl
  | .newObject _ => rfl

theorem argOccurrences_rename :
    ∀ es : List (Expr ν), argOccurrences (renameArgs n z es) =
      (argOccurrences es).map (Occurrence.rename n z)
  | [] => rfl
  | e :: es => by
    simp only [renameArgs, argOccurrences, List.map_append, Expr.occurrences_rename e,
      argOccurrences_rename es]

end

variable {n z}

mutual

/-- Putting the name there that stands there, or a name where none stands, changes nothing. -/
theorem Expr.rename_eq_self : ∀ e : Expr ν, Bears n z e.occurrences → e.rename n z = e
  | .node line note form => fun h => by
    rw [Expr.rename, ExprForm.rename_eq_self line form h]

theorem ExprForm.rename_eq_self (line : Nat) :
    ∀ form : ExprForm ν, Bears n z (form.occurrences line) → form.rename n z line = form
  | .binary op a b => by
    rw [ExprForm.occurrences, bears_append]
    rintro ⟨ha, hb⟩
    rw [ExprForm.rename, Expr.rename_eq_self a ha, Expr.rename_eq_self b hb]
  | .lookup a i => by
    rw [ExprForm.occurrences, bears_append]
    rintro ⟨ha, hi⟩
    rw [ExprForm.rename, Expr.rename_eq_self a ha, Expr.rename_eq_self i hi]
  | .send r m args => by
    rw [ExprForm.occurrences, bears_cons, bears_append]
    rintro ⟨hm, hr, hargs⟩
    rw [ExprForm.rename, nameAt_of_bears hm, Expr.rename_eq_self r hr,
      renameArgs_eq_self args hargs]
  | .length e => fun h => congrArg ExprForm.length (e.rename_eq_self h)
  | .newIntArray e => fun h => congrArg ExprForm.newIntArray (e.rename_eq_self h)
  | .newBooleanArray e => fun h => congrArg ExprForm.newBooleanArray (e.rename_eq_self h)
  | .not e => fun h => congrArg ExprForm.not (e.rename_eq_self h)
  | .bracket e => fun h => congrArg ExprForm.bracket (e.rename_eq_self h)
  | .int _ => fun _ => rfl
  | .tt => fun _ => rfl
  | .ff => fun _ => rfl
  | .name _ => fun h => congrArg ExprForm.name (nameAt_of_bears (bears_cons.mp h).1)
  | .this => fun _ => rfl
  | .newObject _ => fun h => congrArg ExprForm.newObject (nameAt_of_bears (bears_cons.mp h).1)

theorem renameArgs_eq_self :
    ∀ es : List (Expr ν), Bears n z (argOccurrences es) → renameArgs n z es = es
  | [] => fun _ => rfl
  | e :: es => by
    rw [argOccurrences, bears_append]
    rintro ⟨he, hes⟩
    rw [renameArgs, Expr.rename_eq_self e he, renameArgs_eq_self es hes]

end

end Rename

end Expressions

section Statements
variable {ν τ : Type}

def Step.occurrences : Step ν → List Occurrence
  | .block _ => []
  | .assign line x value => ⟨line, .var, x⟩ :: value.occurrences
  | .arrayAssign line x index value =>
    ⟨line, .var, x⟩ :: (index.occurrences ++ value.occurrences)
  | .condition _ e | .print _ e | .result e => e.occurrences

def Stmt.occurrences (s : Stmt ν τ) : List Occurrence := s.steps.flatMap (·.occurrences)

def bodyOccurrences (ss : List (Stmt ν τ)) : List Occurrence :=
  (bodySteps ss).flatMap (·.occurrences)

section Rename
variable (n : Nat) (z : Name)

def Step.rename (s : Step ν) : Step ν := s.onParts (Expr.rename n z) (nameAt n z)

def renameBody (ss : List (Stmt ν τ)) : List (Stmt ν τ) := bodyOnParts (Expr.rename n z) (nameAt n z) ss

end Rename

theorem bodyOccurrences_cons (s : Stmt ν τ) (ss : List (Stmt ν τ)) :
    bodyOccurrences (s :: ss) = s.occurrences ++ bodyOccurrences ss := by
  rw [bodyOccurrences, bodySteps, List.flatMap_append]
  rfl

theorem Stmt.occurrences_block (line : Nat) (body : List (Stmt ν τ)) :
    (Stmt.block line body).occurrences = bodyOccurrences body := by
  rw [occurrences, steps, List.flatMap_cons]
  rfl

theorem Stmt.occurrences_ifElse (line : Nat) (cond : Expr ν) (yes no : Stmt ν τ) :
    (Stmt.ifElse line cond yes no).occurrences =
      cond.occurrences ++ (yes.occurrences ++ no.occurrences) := by
  rw [occurrences, steps, List.flatMap_cons, List.flatMap_append]
  rfl

theorem Stmt.occurrences_while (line : Nat) (cond : Expr ν) (body : Stmt ν τ) :
    (Stmt.while line cond body).occurrences = cond.occurrences ++ body.occurrences := by
  rw [occurrences, steps, List.flatMap_cons]
  rfl

section Rename
variable (n : Nat) (z : Name)

theorem Step.occurrences_rename (s : Step ν) :
    (s.rename n z).occurrences = s.occurrences.map (Occurrence.rename n z) := by
  cases s with
  | block line => rfl
  | assign line x value =>
    simp only [rename, onParts, occurrences, Expr.occurrences_rename, List.map_cons]
    rfl
  | arrayAssign line x index value =>
    simp only [rename, onParts, occurrences, Expr.occurrences_rename, List.map_cons,
      List.map_append]
    rfl
  | condition line cond => exact cond.occurrences_rename n z
  | print line value => exact value.occurrences_rename n z
  | result value => exact value.occurrences_rename n z

theorem bodySteps_rename (ss : List (Stmt ν τ)) :
    bodySteps (renameBody n z ss) = (bodySteps ss).map (Step.rename n z) :=
  bodySteps_onParts _ _ ss

variable {n z}

theorem Step.rename_eq_self {s : Step ν} (h : Bears n z s.occurrences) : s.rename n z = s := by
  cases s with
  | block line => rfl
  | assign line x value =>
    obtain ⟨hx, hv⟩ := bears_cons.mp h
    rw [rename, onParts, nameAt_of_bears hx, Expr.rename_eq_self value hv]
  | arrayAssign line x index value =>
    obtain ⟨hx, rest⟩ := bears_cons.mp h
    obtain ⟨hi, hv⟩ := bears_append.mp rest
    rw [rename, onParts, nameAt_of_bears hx, Expr.rename_eq_self index hi,
      Expr.rename_eq_self value hv]
  | condition line cond => exact congrArg (Step.condition line) (cond.rename_eq_self h)
  | print line value => exact congrArg (Step.print line) (value.rename_eq_self h)
  | result value => exact congrArg Step.result (value.rename_eq_self h)

theorem renameBody_eq_self (ss : List (Stmt ν τ)) (h : Bears n z (bodyOccurrences ss)) :
    renameBody n z ss = ss :=
  bodyOnParts_eq_self ss fun k hk => Step.rename_eq_self (bears_flatMap.mp h k hk)

end Rename

end Statements

section Declarations
variable {N : Notes}

/-- Only the types that are classes have names. -/
def Ty.occurrences (line : Nat) : Ty → List Occurrence
  | .object x => [⟨line, .type, x⟩]
  | _ => []

def Ty.rename (n : Nat) (z : Name) (line : Nat) : Ty → Ty
  | .object x => .object (nameAt n z line x)
  | ty => ty

def VarDecl.occurrences (v : VarDecl) : List Occurrence := v.ty.occurrences v.line

def VarDecl.rename (n : Nat) (z : Name) (v : VarDecl) : VarDecl :=
  { v with ty := v.ty.rename n z v.line }

def MethodDecl.typeOccurrences (m : MethodDecl N) : List Occurrence :=
  m.returnTy.occurrences m.line ++ (m.params.flatMap (·.occurrences) ++
    m.vars.flatMap (·.occurrences))

def MethodDecl.occurrences (m : MethodDecl N) : List Occurrence :=
  m.typeOccurrences ++ (bodyOccurrences m.body ++ m.result.occurrences)

def MethodDecl.rename (n : Nat) (z : Name) (m : MethodDecl N) : MethodDecl N :=
  { m with
    returnTy := m.returnTy.rename n z m.line
    params := m.params.map (VarDecl.rename n z)
    vars := m.vars.map (VarDecl.rename n z)
    body := renameBody n z m.body
    result := m.result.rename n z }

def ClassDecl.typeOccurrences (c : ClassDecl N) : List Occurrence :=
  c.fields.flatMap (·.occurrences) ++ c.methods.flatMap (·.typeOccurrences)

def ClassDecl.occurrences (c : ClassDecl N) : List Occurrence :=
  c.fields.flatMap (·.occurrences) ++ c.methods.flatMap (·.occurrences)

def ClassDecl.rename (n : Nat) (z : Name) (c : ClassDecl N) : ClassDecl N :=
  { c with
    fields := c.fields.map (VarDecl.rename n z)
    methods := c.methods.map (MethodDecl.rename n z) }

def MainClass.occurrences (m : MainClass N) : List Occurrence :=
  m.vars.flatMap (·.occurrences) ++ bodyOccurrences m.body

def MainClass.rename (n : Nat) (z : Name) (m : MainClass N) : MainClass N :=
  { m with
    vars := m.vars.map (VarDecl.rename n z)
    body := renameBody n z m.body }

def Program.typeOccurrences (p : Program N) : List Occurrence :=
  p.main.vars.flatMap (·.occurrences) ++ p.classes.flatMap (·.typeOccurrences)

def Program.occurrences (p : Program N) : List Occurrence :=
  p.main.occurrences ++ p.classes.flatMap (·.occurrences)

/-- The program with the name `z` at the line `n`. -/
def Program.rename (n : Nat) (z : Name) (p : Program N) : Program N :=
  ⟨p.main.rename n z, p.classes.map (ClassDecl.rename n z)⟩

section Rename
variable (n : Nat) (z : Name)

theorem VarDecl.occurrences_rename (v : VarDecl) :
    (v.rename n z).occurrences = v.occurrences.map (Occurrence.rename n z) := by
  obtain ⟨line, ty, name⟩ := v
  cases ty <;> rfl

theorem Ty.occurrences_rename (line : Nat) (ty : Ty) :
    (ty.rename n z line).occurrences line =
      (ty.occurrences line).map (Occurrence.rename n z) := by
  cases ty <;> rfl

theorem MethodDecl.typeOccurrences_rename (m : MethodDecl N) :
    (m.rename n z).typeOccurrences = m.typeOccurrences.map (Occurrence.rename n z) := by
  simp only [typeOccurrences, rename, Ty.occurrences_rename, VarDecl.occurrences_rename,
    List.flatMap_map, List.map_flatMap, List.map_append]

theorem Program.typeOccurrences_rename (p : Program N) :
    (p.rename n z).typeOccurrences = p.typeOccurrences.map (Occurrence.rename n z) := by
  simp only [typeOccurrences, ClassDecl.typeOccurrences, rename, MainClass.rename,
    ClassDecl.rename, VarDecl.occurrences_rename, MethodDecl.typeOccurrences_rename,
    List.flatMap_map, List.map_flatMap, List.map_append]

theorem MethodDecl.steps_rename (m : MethodDecl N) :
    (m.rename n z).steps = m.steps.map (Step.rename n z) := by
  rw [steps, steps, List.map_append, ← bodySteps_rename]
  rfl

theorem Program.steps_rename (p : Program N) :
    (p.rename n z).steps = p.steps.map (Step.rename n z) := by
  simp only [steps, rename, MainClass.rename, ClassDecl.rename, bodySteps_rename,
    MethodDecl.steps_rename, List.flatMap_map, List.map_flatMap, List.map_append]

end Rename

section Split
variable (p : Program N)

/-- The occurrences are those in declared types and those in the steps. -/
theorem Program.occurrences_perm :
    p.occurrences.Perm (p.typeOccurrences ++ p.steps.flatMap (·.occurrences)) := by
  have methods : ∀ m : MethodDecl N,
      m.occurrences = m.typeOccurrences ++ m.steps.flatMap (·.occurrences) := by
    intro m
    rw [MethodDecl.occurrences, MethodDecl.steps, List.flatMap_append, List.flatMap_singleton]
    rfl
  have classes : ∀ c : ClassDecl N, c.occurrences.Perm
      (c.typeOccurrences ++ c.methods.flatMap fun m => m.steps.flatMap (·.occurrences)) := by
    intro c
    simp only [ClassDecl.occurrences, ClassDecl.typeOccurrences, methods, List.append_assoc]
    exact (List.flatMap_append_perm _ _ _).symm.append_left _
  rw [occurrences, typeOccurrences, steps, MainClass.occurrences, List.flatMap_append,
    List.append_assoc, List.append_assoc]
  simp only [List.flatMap_assoc]
  refine List.Perm.append_left _ ?_
  have rest := (List.Perm.flatMap_left p.classes fun c _ => classes c).trans
    (List.flatMap_append_perm p.classes _ _).symm
  exact (rest.append_left _).trans (List.perm_append_comm_assoc _ _ _)

end Split

section Same
variable {n : Nat} {z : Name}

theorem Ty.rename_eq_self {line : Nat} {ty : Ty} (h : Bears n z (ty.occurrences line)) :
    ty.rename n z line = ty := by
  cases ty with
  | object x => exact congrArg Ty.object (nameAt_of_bears (bears_cons.mp h).1)
  | _ => rfl

theorem map_rename_eq_self {vs : List VarDecl} (h : Bears n z (vs.flatMap (·.occurrences))) :
    vs.map (VarDecl.rename n z) = vs := by
  refine (List.map_congr_left fun v hv => ?_).trans (List.map_id vs)
  rw [VarDecl.rename, Ty.rename_eq_self (bears_flatMap.mp h v hv)]
  rfl

/-- A line of the bodies is no line of the declarations. -/
theorem MethodDecl.rename_eq_onBodies {m : MethodDecl N} (h : Bears n z m.typeOccurrences) :
    m.rename n z = m.onBodies (renameBody n z) (Expr.rename n z) := by
  obtain ⟨returnTy, params, vars⟩ := by
    simpa only [typeOccurrences, bears_append] using h
  rw [rename, Ty.rename_eq_self returnTy, map_rename_eq_self params, map_rename_eq_self vars]
  rfl

theorem Program.rename_eq_onBodies {p : Program N} (h : Bears n z p.typeOccurrences) :
    p.rename n z = p.onBodies (renameBody n z) (Expr.rename n z) := by
  obtain ⟨main, classes⟩ := bears_append.mp h
  rw [rename, onBodies, MainClass.rename, map_rename_eq_self main]
  refine congrArg (Program.mk _) (List.map_congr_left fun c hc => ?_)
  obtain ⟨fields, methods⟩ := bears_append.mp (bears_flatMap.mp classes c hc)
  rw [ClassDecl.rename, map_rename_eq_self fields, ClassDecl.onBodies]
  refine congrArg (ClassDecl.mk _ _ _ _ _) (List.map_congr_left fun m hm => ?_)
  exact MethodDecl.rename_eq_onBodies (bears_flatMap.mp methods m hm)

theorem MethodDecl.rename_eq_self {m : MethodDecl N} (h : Bears n z m.occurrences) :
    m.rename n z = m := by
  obtain ⟨types, body, result⟩ := by simpa only [occurrences, bears_append] using h
  rw [rename_eq_onBodies types, onBodies, renameBody_eq_self _ body, Expr.rename_eq_self _ result]

theorem ClassDecl.rename_eq_self {c : ClassDecl N} (h : Bears n z c.occurrences) :
    c.rename n z = c := by
  obtain ⟨fields, methods⟩ := bears_append.mp h
  have each : c.methods.map (MethodDecl.rename n z) = c.methods := by
    refine (List.map_congr_left fun m hm => ?_).trans (List.map_id _)
    exact MethodDecl.rename_eq_self (bears_flatMap.mp methods m hm)
  rw [rename, map_rename_eq_self fields, each]

/-- Putting the name there that stands there changes nothing. -/
theorem Program.rename_eq_self {p : Program N} (h : Bears n z p.occurrences) :
    p.rename n z = p := by
  obtain ⟨main, classes⟩ := bears_append.mp h
  obtain ⟨vars, body⟩ := bears_append.mp main
  have each : p.classes.map (ClassDecl.rename n z) = p.classes := by
    refine (List.map_congr_left fun c hc => ?_).trans (List.map_id _)
    exact ClassDecl.rename_eq_self (bears_flatMap.mp classes c hc)
  rw [rename, MainClass.rename, map_rename_eq_self vars, renameBody_eq_self _ body, each]

end Same

end Declarations

end MiniJava
