import MiniJava.Proofs.Codegen.Total
import MiniJava.Proofs.Grouping.Syntax
import MiniJava.Proofs.Typing.Statement

/-!
# Code without brackets and blocks

A bracket has the code of what stands in it, and a block that of the statements inside. Some parts are
asked for their own note before any code is written; where analysis has recorded everything, a bracket
has the note of what stands in it, so the answer is the same.
-/
namespace MiniJava.Codegen

open IR Typing

/-- A recorded bracket has the note of what stands in it. -/
theorem note_of_bracket {s : Check.Scope} {line : Nat} {note : Note} {inner : Expr Note}
    (h : NoteFits s (.node line note (.bracket inner))) (h' : NoteFits s inner) :
    inner.note = note := by
  obtain ⟨i, rfl, derives⟩ := h
  obtain ⟨j, hj, derives'⟩ := h'
  have typed : HasType s inner.bare j := (derives' j).mpr rfl
  have same : j = i := (derives j).mp (.bracket typed)
  rw [hj, same]

/-- A recorded part answers with its note, in brackets or not. -/
theorem infoOf_unbracketed {s : Check.Scope} {e : Expr Note} (h : NoteFits s e) :
    infoOf e.unbracketed = infoOf e := by
  obtain ⟨i, hi, _⟩ := h
  rw [infoOf, infoOf, Expr.note_unbracketed, hi]
  rfl

section Expressions
variable {s : Check.Scope} (c : Env)

theorem genExpr_node (line : Nat) (note : Note) (form : ExprForm Note) :
    genExpr c (.node line note form) = genForm c line note form := by
  rw [genExpr]

mutual

theorem genExpr_unbracketed : ∀ e : Expr Note, ExprRecorded s e →
    genExpr c e.unbracketed = genExpr c e
  | .node line note form, h => by
    rw [ExprRecorded, Expr.all, List.forall_mem_cons] at h
    obtain ⟨fits, parts⟩ := h
    have inside := genForm_unbracketed line note form parts
    rw [Expr.unbracketed]
    cases form with
    | bracket inner =>
      have same := note_of_bracket fits (parts inner (self_mem_all inner))
      rw [ExprForm.unbracketed, genForm, genForm] at inside
      rw [ExprForm.unbracketed, Expr.opened, ← same, ← inner.note_unbracketed, Expr.withNote_note,
        inside, genExpr, genForm]
    | _ => exact (genExpr_node c _ _ _).trans (inside.trans (genExpr_node c _ _ _).symm)

theorem genForm_unbracketed (line : Nat) (note : Note) : ∀ form : ExprForm Note,
    (∀ x ∈ form.all, NoteFits s x) →
      genForm c line note form.unbracketed = genForm c line note form
  | .binary op a b, h => by
    rw [ExprForm.all, List.forall_mem_append] at h
    simp only [ExprForm.unbracketed, genForm, genExpr_unbracketed a h.1, genExpr_unbracketed b h.2]
  | .lookup a i, h => by
    rw [ExprForm.all, List.forall_mem_append] at h
    simp only [ExprForm.unbracketed, genForm, genExpr_unbracketed a h.1, genExpr_unbracketed i h.2,
      infoOf_unbracketed (h.1 a (self_mem_all a))]
  | .length a, h => by
    simp only [ExprForm.unbracketed, genForm, genExpr_unbracketed a h,
      infoOf_unbracketed (h a (self_mem_all a))]
  | .send r m args, h => by
    rw [ExprForm.all, List.forall_mem_append] at h
    have args := fun tys => genArgs_unbracketed tys args h.2
    simp only [ExprForm.unbracketed, genForm, genExpr_unbracketed r h.1, args]
    rfl
  | .int _, _ => rfl
  | .tt, _ => rfl
  | .ff, _ => rfl
  | .name _, _ => rfl
  | .this, _ => rfl
  | .newIntArray n, h => by
    simp only [ExprForm.unbracketed, genForm, genExpr_unbracketed n h]
  | .newBooleanArray n, h => by
    simp only [ExprForm.unbracketed, genForm, genExpr_unbracketed n h]
  | .newObject _, _ => rfl
  | .not e, h => by simp only [ExprForm.unbracketed, genForm, genExpr_unbracketed e h]
  | .bracket e, h => by simp only [ExprForm.unbracketed, genForm, genExpr_unbracketed e h]

theorem genArgs_unbracketed : ∀ (tys : List Ty) (es : List (Expr Note)),
    (∀ x ∈ allArgs es, NoteFits s x) → genArgs c tys (unbracketedArgs es) = genArgs c tys es
  | _, [], _ => rfl
  | tys, e :: es, h => by
    rw [allArgs, List.forall_mem_append] at h
    rw [unbracketedArgs]
    cases tys with
    | nil => rw [genArgs, genArgs]
    | cons ty tys =>
      rw [genArgs, genArgs, genExpr_unbracketed e h.1, genArgs_unbracketed tys es h.2]

end

end Expressions

theorem bind_done (x : Gen Unit) : (x >>= fun _ => Gen.of ()) = x := by
  funext k
  change Gen.andThen x (fun _ => Gen.of ()) k = x k
  rw [Gen.andThen]
  generalize x k = first
  obtain ⟨result, code, cursor⟩ := first
  cases result with
  | error e => rfl
  | ok a => exact congrArg (Emitted.mk _ · _) (List.append_nil code)

section Statements
variable {s : Check.Scope} (c : Env)

theorem genStmts_append (sts rest : List (Stmt Note Target)) :
    genStmts c (sts ++ rest) = genStmts c sts >>= fun _ => genStmts c rest := by
  induction sts with
  | nil => rw [List.nil_append, genStmts, of_bind]
  | cons st sts ih => rw [List.cons_append, genStmts, ih, genStmts, bind_assoc]

theorem genStmts_singleton (st : Stmt Note Target) : genStmts c [st] = genStmt c st := by
  rw [genStmts, genStmts, bind_done]

mutual

/-- A statement is compiled like the row that it is spread to. -/
theorem genStmts_spread : ∀ st : Stmt Note Target, StmtRecorded s st →
    genStmts c st.spread = genStmt c st
  | .block line body, h => by rw [Stmt.spread, genStmts_spreadBody body h, genStmt]
  | .assign line x target value, h => by
    obtain ⟨_, hvalue⟩ := stmtRecorded_assign.mp h
    rw [Stmt.spread, genStmts_singleton, genStmt, genStmt, genExpr_unbracketed c value hvalue]
  | .arrayAssign line x target index value, h => by
    obtain ⟨_, hindex, hvalue⟩ := stmtRecorded_arrayAssign.mp h
    rw [Stmt.spread, genStmts_singleton, genStmt, genStmt, genExpr_unbracketed c index hindex,
      genExpr_unbracketed c value hvalue]
  | .ifElse line cond yes no, h => by
    obtain ⟨hcond, hyes, hno⟩ := stmtRecorded_ifElse.mp h
    rw [Stmt.spread, genStmts_singleton, genStmt, genStmt, genStmt, genStmt,
      genExpr_unbracketed c cond hcond, genStmts_spread yes hyes, genStmts_spread no hno]
  | .while line cond body, h => by
    obtain ⟨hcond, hbody⟩ := stmtRecorded_while.mp h
    rw [Stmt.spread, genStmts_singleton, genStmt, genStmt, genStmt,
      genExpr_unbracketed c cond hcond, genStmts_spread body hbody]
  | .print line value, h => by
    have hvalue := stmtRecorded_print.mp h
    rw [Stmt.spread, genStmts_singleton, genStmt, genStmt, genExpr_unbracketed c value hvalue]

theorem genStmts_spreadBody : ∀ sts : List (Stmt Note Target), BodyRecorded s sts →
    genStmts c (spreadBody sts) = genStmts c sts
  | [], _ => rfl
  | st :: sts, h => by
    obtain ⟨first, rest⟩ := bodyRecorded_cons.mp h
    rw [spreadBody, genStmts_append, genStmts_spread st first, genStmts_spreadBody sts rest,
      genStmts]

end

theorem mainBody_spread {body : List (Stmt Note Target)} (h : BodyRecorded s body) :
    mainBody c (spreadBody body) = mainBody c body := by
  rw [mainBody, genStmts_spreadBody c body h, mainBody]

theorem methodBody_spread (m : Method) {d : MethodDecl .checked}
    (h : ∀ x ∈ d.items, ItemRecorded s x) :
    methodBody c m (spreadBody d.body) d.result.unbracketed = methodBody c m d.body d.result := by
  obtain ⟨body, result⟩ := List.forall_mem_append.mp h
  rw [methodBody, genStmts_spreadBody c d.body body,
    genExpr_unbracketed c d.result (exprRecorded_iff.mp result), methodBody]

end Statements

/-- A method without brackets and blocks. -/
abbrev spreadMethod : MethodDecl .checked → MethodDecl .checked :=
  MethodDecl.onBodies spreadBody Expr.unbracketed

theorem methodFunctions_spread {t t' : ClassTable} (l : Layout) (cls name : Name)
    {ds : List (MethodDecl .checked)} (h : ∀ d ∈ ds, MethodRecorded t name d)
    (rest : LabelCounters → Built) (labels : LabelCounters) :
    methodFunctions t' l cls rest (ds.map spreadMethod) labels =
      methodFunctions t' l cls rest ds labels := by
  induction ds generalizing labels with
  | nil => rfl
  | cons d ds ih =>
    obtain ⟨first, others⟩ := List.forall_mem_cons.mp h
    obtain ⟨ref, note, _, recorded⟩ := first
    have body := fun c m => methodBody_spread c m recorded
    have after : methodFunctions t' l cls rest (ds.map spreadMethod) =
        methodFunctions t' l cls rest ds := funext (ih others)
    rw [List.map_cons, methodFunctions, methodFunctions, after]
    dsimp only [spreadMethod, MethodDecl.onBodies]
    simp only [note, body]

theorem classFunctions_spread {t t' : ClassTable} (l : Layout) {ds : List (ClassDecl .checked)}
    (h : ∀ d ∈ ds, ClassRecorded t d) (labels : LabelCounters) :
    classFunctions t' l (ds.map (ClassDecl.onBodies spreadBody Expr.unbracketed)) labels =
      classFunctions t' l ds labels := by
  induction ds generalizing labels with
  | nil => rfl
  | cons d ds ih =>
    obtain ⟨first, others⟩ := List.forall_mem_cons.mp h
    have after : classFunctions t' l (ds.map (ClassDecl.onBodies spreadBody Expr.unbracketed)) =
        classFunctions t' l ds := funext (ih others)
    rw [List.map_cons, classFunctions, classFunctions, after]
    dsimp only [ClassDecl.onBodies]
    simp only [methodFunctions_spread l _ d.name first.methods]

/-- A recorded program has the module of the program without brackets and blocks. -/
theorem generate_spread {t t' : ClassTable} (l : Layout) {p : Program .checked}
    (h : ProgramRecorded t p) : generate t' l p.spread = generate t' l p := by
  have after : classFunctions t' l p.spread.classes = classFunctions t' l p.classes :=
    funext (classFunctions_spread l h.classes)
  have main := fun c => mainBody_spread c h.main
  rw [generate, generate, programFunctions, after]
  dsimp only [Program.spread, Program.onBodies, MainClass.onBodies]
  rw [main, programFunctions]

end MiniJava.Codegen
