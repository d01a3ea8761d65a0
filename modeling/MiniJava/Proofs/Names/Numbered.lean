import MiniJava.Proofs.Lines.Syntax
import MiniJava.Proofs.Names.Occurrences

/-!
# Numbered programs

A program is numbered by giving each occurrence of a name a line to itself, in the order of the
program. So the line of a message tells which occurrence it is about. Nothing but lines is changed.
-/
namespace MiniJava

section Expressions
variable {ν : Type}

mutual

/-- Gives the occurrences the lines from `n` on. -/
def Expr.numbered (n : Nat) : Expr ν → Expr ν
  | .node _ note form => .node n note (form.numbered n)

def ExprForm.numbered (n : Nat) : ExprForm ν → ExprForm ν
  | .binary op a b => .binary op (a.numbered n) (b.numbered (n + a.occurrences.length))
  | .lookup a i => .lookup (a.numbered n) (i.numbered (n + a.occurrences.length))
  | .send r m args =>
    .send (r.numbered (n + 1)) m (numberedArgs (n + 1 + r.occurrences.length) args)
  | .length e => .length (e.numbered n)
  | .newIntArray e => .newIntArray (e.numbered n)
  | .newBooleanArray e => .newBooleanArray (e.numbered n)
  | .not e => .not (e.numbered n)
  | .bracket e => .bracket (e.numbered n)
  | .int i => .int i
  | .tt => .tt
  | .ff => .ff
  | .name x => .name x
  | .this => .this
  | .newObject c => .newObject c

def numberedArgs (n : Nat) : List (Expr ν) → List (Expr ν)
  | [] => []
  | e :: es => e.numbered n :: numberedArgs (n + e.occurrences.length) es

end

mutual

theorem Expr.lines_numbered :
    ∀ (e : Expr ν) (n : Nat),
      (e.numbered n).occurrences.map (·.line) = List.range' n e.occurrences.length
  | .node line _ form, n => form.lines_numbered line n

theorem ExprForm.lines_numbered (line : Nat) :
    ∀ (form : ExprForm ν) (n : Nat), ((form.numbered n).occurrences n).map (·.line) =
      List.range' n (form.occurrences line).length
  | .binary op a b, n => by
    simp only [ExprForm.numbered, ExprForm.occurrences, List.map_append, Expr.lines_numbered a,
      Expr.lines_numbered b, List.length_append, List.range'_append_1]
  | .lookup a i, n => by
    simp only [ExprForm.numbered, ExprForm.occurrences, List.map_append, Expr.lines_numbered a,
      Expr.lines_numbered i, List.length_append, List.range'_append_1]
  | .send r m args, n => by
    simp only [ExprForm.numbered, ExprForm.occurrences, List.map_cons, List.map_append,
      Expr.lines_numbered r, argLines_numbered args, List.length_cons, List.length_append,
      List.range'_append_1, List.range'_succ]
  | .length e, n => e.lines_numbered n
  | .newIntArray e, n => e.lines_numbered n
  | .newBooleanArray e, n => e.lines_numbered n
  | .not e, n => e.lines_numbered n
  | .bracket e, n => e.lines_numbered n
  | .int _, _ => rfl
  | .tt, _ => rfl
  | .ff, _ => rfl
  | .name _, _ => rfl
  | .this, _ => rfl
  | .newObject _, _ => rfl

theorem argLines_numbered :
    ∀ (es : List (Expr ν)) (n : Nat),
      (argOccurrences (numberedArgs n es)).map (·.line) =
        List.range' n (argOccurrences es).length
  | [], _ => rfl
  | e :: es, n => by
    simp only [numberedArgs, argOccurrences, List.map_append, Expr.lines_numbered e,
      argLines_numbered es, List.length_append, List.range'_append_1]

end

mutual

theorem Expr.unlined_numbered : ∀ (e : Expr ν) (n : Nat), (e.numbered n).unlined = e.unlined
  | .node _ _ form, n => by
    rw [Expr.numbered, Expr.unlined, ExprForm.unlined_numbered form n, Expr.unlined]

theorem ExprForm.unlined_numbered :
    ∀ (form : ExprForm ν) (n : Nat), (form.numbered n).unlined = form.unlined
  | .binary op a b, n => by
    simp only [ExprForm.numbered, ExprForm.unlined, Expr.unlined_numbered a,
      Expr.unlined_numbered b]
  | .lookup a i, n => by
    simp only [ExprForm.numbered, ExprForm.unlined, Expr.unlined_numbered a,
      Expr.unlined_numbered i]
  | .send r m args, n => by
    simp only [ExprForm.numbered, ExprForm.unlined, Expr.unlined_numbered r,
      unlinedArgs_numbered args]
  | .length e, n => congrArg ExprForm.length (e.unlined_numbered n)
  | .newIntArray e, n => congrArg ExprForm.newIntArray (e.unlined_numbered n)
  | .newBooleanArray e, n => congrArg ExprForm.newBooleanArray (e.unlined_numbered n)
  | .not e, n => congrArg ExprForm.not (e.unlined_numbered n)
  | .bracket e, n => congrArg ExprForm.bracket (e.unlined_numbered n)
  | .int _, _ => rfl
  | .tt, _ => rfl
  | .ff, _ => rfl
  | .name _, _ => rfl
  | .this, _ => rfl
  | .newObject _, _ => rfl

theorem unlinedArgs_numbered :
    ∀ (es : List (Expr ν)) (n : Nat), unlinedArgs (numberedArgs n es) = unlinedArgs es
  | [], _ => rfl
  | e :: es, n => by
    simp only [numberedArgs, unlinedArgs, Expr.unlined_numbered e, unlinedArgs_numbered es]

end

end Expressions

section Statements
variable {ν τ : Type}

mutual

def Stmt.numbered (n : Nat) : Stmt ν τ → Stmt ν τ
  | .block _ body => .block n (numberedBody n body)
  | .assign _ x note value => .assign n x note (value.numbered (n + 1))
  | .arrayAssign _ x note index value =>
    .arrayAssign n x note (index.numbered (n + 1))
      (value.numbered (n + 1 + index.occurrences.length))
  | .ifElse _ cond yes no =>
    .ifElse n (cond.numbered n) (yes.numbered (n + cond.occurrences.length))
      (no.numbered (n + cond.occurrences.length + yes.occurrences.length))
  | .while _ cond body =>
    .while n (cond.numbered n) (body.numbered (n + cond.occurrences.length))
  | .print _ value => .print n (value.numbered n)

def numberedBody (n : Nat) : List (Stmt ν τ) → List (Stmt ν τ)
  | [] => []
  | s :: ss => s.numbered n :: numberedBody (n + s.occurrences.length) ss

end

mutual

theorem Stmt.lines_numbered :
    ∀ (s : Stmt ν τ) (n : Nat),
      (s.numbered n).occurrences.map (·.line) = List.range' n s.occurrences.length
  | .block _ body, n => by
    rw [Stmt.numbered, Stmt.occurrences_block, Stmt.occurrences_block,
      bodyLines_numbered body n]
  | .assign _ x note value, n => by
    simp only [Stmt.numbered, Stmt.occurrences, Stmt.steps, List.flatMap_singleton,
      Step.occurrences, List.map_cons, Expr.lines_numbered, List.length_cons, List.range'_succ]
  | .arrayAssign _ x note index value, n => by
    simp only [Stmt.numbered, Stmt.occurrences, Stmt.steps, List.flatMap_singleton,
      Step.occurrences, List.map_cons, List.map_append, Expr.lines_numbered, List.length_cons,
      List.length_append, List.range'_append_1, List.range'_succ]
  | .ifElse _ cond yes no, n => by
    simp only [Stmt.numbered, Stmt.occurrences_ifElse, List.map_append, Expr.lines_numbered cond,
      Stmt.lines_numbered yes, Stmt.lines_numbered no, List.length_append, List.range'_append_1]
  | .while _ cond body, n => by
    simp only [Stmt.numbered, Stmt.occurrences_while, List.map_append, Expr.lines_numbered cond,
      Stmt.lines_numbered body, List.length_append, List.range'_append_1]
  | .print _ value, n => by
    simp only [Stmt.numbered, Stmt.occurrences, Stmt.steps, List.flatMap_singleton,
      Step.occurrences, Expr.lines_numbered]

theorem bodyLines_numbered :
    ∀ (ss : List (Stmt ν τ)) (n : Nat),
      (bodyOccurrences (numberedBody n ss)).map (·.line) = List.range' n (bodyOccurrences ss).length
  | [], _ => rfl
  | s :: ss, n => by
    simp only [numberedBody, bodyOccurrences_cons, List.map_append, Stmt.lines_numbered s,
      bodyLines_numbered ss, List.length_append, List.range'_append_1]

end

mutual

theorem Stmt.unlined_numbered : ∀ (s : Stmt ν τ) (n : Nat), (s.numbered n).unlined = s.unlined
  | .block _ body, n => by
    simp only [Stmt.numbered, Stmt.unlined, unlinedBody_numbered body]
  | .assign .., n => by simp only [Stmt.numbered, Stmt.unlined, Expr.unlined_numbered]
  | .arrayAssign .., n => by simp only [Stmt.numbered, Stmt.unlined, Expr.unlined_numbered]
  | .ifElse _ cond yes no, n => by
    simp only [Stmt.numbered, Stmt.unlined, Expr.unlined_numbered, Stmt.unlined_numbered yes,
      Stmt.unlined_numbered no]
  | .while _ cond body, n => by
    simp only [Stmt.numbered, Stmt.unlined, Expr.unlined_numbered, Stmt.unlined_numbered body]
  | .print .., n => by simp only [Stmt.numbered, Stmt.unlined, Expr.unlined_numbered]

theorem unlinedBody_numbered :
    ∀ (ss : List (Stmt ν τ)) (n : Nat), unlinedBody (numberedBody n ss) = unlinedBody ss
  | [], _ => rfl
  | s :: ss, n => by
    simp only [numberedBody, unlinedBody, Stmt.unlined_numbered s, unlinedBody_numbered ss]

end

end Statements

/-- Numbers the members of a list one after the other. -/
def numberedList {α : Type} (occurrences : α → List Occurrence) (numbered : Nat → α → α) (n : Nat) :
    List α → List α
  | [] => []
  | a :: as => numbered n a :: numberedList occurrences numbered (n + (occurrences a).length) as

section NumberedList
variable {α : Type} {occurrences : α → List Occurrence} {numbered : Nat → α → α}

theorem lines_numberedList
    (each : ∀ a n, (occurrences (numbered n a)).map (·.line) =
      List.range' n (occurrences a).length) (as : List α) :
    ∀ n, ((numberedList occurrences numbered n as).flatMap occurrences).map (·.line) =
      List.range' n (as.flatMap occurrences).length := by
  induction as with
  | nil => exact fun n => rfl
  | cons a as ih =>
    intro n
    rw [numberedList, List.flatMap_cons, List.flatMap_cons, List.map_append, each, ih,
      List.length_append, List.range'_append_1]

theorem map_numberedList {β : Type} {f : α → β} (each : ∀ a n, f (numbered n a) = f a)
    (as : List α) : ∀ n, (numberedList occurrences numbered n as).map f = as.map f := by
  induction as with
  | nil => exact fun n => rfl
  | cons a as ih =>
    intro n
    rw [numberedList, List.map_cons, List.map_cons, each, ih]

end NumberedList

section Programs
variable {N : Notes}

def VarDecl.numbered (n : Nat) (v : VarDecl) : VarDecl := { v with line := n }

def MethodDecl.numbered (n : Nat) (m : MethodDecl N) : MethodDecl N :=
  let params := n + (m.returnTy.occurrences m.line).length
  let vars := params + (m.params.flatMap (·.occurrences)).length
  let body := vars + (m.vars.flatMap (·.occurrences)).length
  { m with
    line := n
    params := numberedList (·.occurrences) VarDecl.numbered params m.params
    vars := numberedList (·.occurrences) VarDecl.numbered vars m.vars
    body := numberedBody body m.body
    result := m.result.numbered (body + (bodyOccurrences m.body).length) }

def ClassDecl.numbered (n : Nat) (c : ClassDecl N) : ClassDecl N :=
  { c with
    line := n
    fields := numberedList (·.occurrences) VarDecl.numbered n c.fields
    methods := numberedList (·.occurrences) MethodDecl.numbered
      (n + (c.fields.flatMap (·.occurrences)).length) c.methods }

def MainClass.numbered (n : Nat) (m : MainClass N) : MainClass N :=
  { m with
    line := n
    vars := numberedList (·.occurrences) VarDecl.numbered n m.vars
    body := numberedBody (n + (m.vars.flatMap (·.occurrences)).length) m.body }

/-- The program with the occurrences of names at the lines 1, 2 and so on. -/
def Program.numbered (p : Program N) : Program N :=
  ⟨p.main.numbered 1, numberedList (·.occurrences) ClassDecl.numbered
    (1 + p.main.occurrences.length) p.classes⟩

theorem Ty.lines_occurrences (ty : Ty) (n line : Nat) :
    (ty.occurrences n).map (·.line) = List.range' n (ty.occurrences line).length := by
  cases ty <;> rfl

theorem VarDecl.lines_numbered (v : VarDecl) (n : Nat) :
    (v.numbered n).occurrences.map (·.line) = List.range' n v.occurrences.length :=
  v.ty.lines_occurrences n v.line

theorem MethodDecl.lines_numbered (m : MethodDecl N) (n : Nat) :
    (m.numbered n).occurrences.map (·.line) = List.range' n m.occurrences.length := by
  simp only [occurrences, typeOccurrences, numbered, List.map_append, List.length_append,
    m.returnTy.lines_occurrences n m.line, lines_numberedList VarDecl.lines_numbered,
    bodyLines_numbered, Expr.lines_numbered, List.range'_append_1, List.append_assoc]

theorem ClassDecl.lines_numbered (c : ClassDecl N) (n : Nat) :
    (c.numbered n).occurrences.map (·.line) = List.range' n c.occurrences.length := by
  simp only [occurrences, numbered, List.map_append, List.length_append,
    lines_numberedList VarDecl.lines_numbered, lines_numberedList MethodDecl.lines_numbered,
    List.range'_append_1]

theorem MainClass.lines_numbered (m : MainClass N) (n : Nat) :
    (m.numbered n).occurrences.map (·.line) = List.range' n m.occurrences.length := by
  simp only [occurrences, numbered, List.map_append, List.length_append,
    lines_numberedList VarDecl.lines_numbered, bodyLines_numbered, List.range'_append_1]

theorem Program.lines_numbered (p : Program N) :
    p.numbered.occurrences.map (·.line) = List.range' 1 p.occurrences.length := by
  simp only [occurrences, numbered, List.map_append, List.length_append,
    MainClass.lines_numbered, lines_numberedList ClassDecl.lines_numbered, List.range'_append_1]

/-- No two occurrences stand at one line. -/
theorem Program.nodup_numbered (p : Program N) : (p.numbered.occurrences.map (·.line)).Nodup := by
  rw [lines_numbered]
  exact List.nodup_range'

theorem VarDecl.unlined_numbered (v : VarDecl) (n : Nat) : (v.numbered n).unlined = v.unlined := rfl

theorem MethodDecl.unlined_numbered (m : MethodDecl N) (n : Nat) :
    (m.numbered n).unlined = m.unlined := by
  simp only [unlined, numbered, map_numberedList VarDecl.unlined_numbered, unlinedBody_numbered,
    Expr.unlined_numbered]

theorem ClassDecl.unlined_numbered (c : ClassDecl N) (n : Nat) :
    (c.numbered n).unlined = c.unlined := by
  simp only [unlined, numbered, map_numberedList VarDecl.unlined_numbered,
    map_numberedList MethodDecl.unlined_numbered]

/-- Only the lines are others. -/
theorem Program.unlined_numbered (p : Program N) : p.numbered.unlined = p.unlined := by
  simp only [unlined, numbered, MainClass.unlined, MainClass.numbered,
    map_numberedList VarDecl.unlined_numbered, unlinedBody_numbered,
    map_numberedList ClassDecl.unlined_numbered]

end Programs

end MiniJava
