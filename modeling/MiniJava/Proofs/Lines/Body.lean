import MiniJava.Check.Body
import MiniJava.Proofs.Lines.Expression

/-!
# Bodies without lines
-/
namespace MiniJava.Check

def State.unlined (st : State) : State := ⟨st.table.unlined, st.report.unlined⟩

/-- From a state without lines the second run ends where the first one ends, without lines; `f` takes
the lines from a value. -/
structure Follows {α β : Type} (f : α → β) (x : CheckM α) (y : CheckM β) : Prop where
  run : ∀ st, y st.unlined = (f (x st).1, (x st).2.unlined)

namespace Follows
variable {α β γ δ : Type}

theorem pure (f : α → β) (a : α) : Follows f (Pure.pure a) (Pure.pure (f a)) := ⟨fun _ => rfl⟩

theorem bind {f : α → β} {x : CheckM α} {y : CheckM β} (h : Follows f x y) {g : γ → δ}
    {k : α → CheckM γ} {l : β → CheckM δ} (h' : ∀ a, Follows g (k a) (l (f a))) :
    Follows g (x >>= k) (y >>= l) := by
  refine ⟨fun st => ?_⟩
  calc (y >>= l) st.unlined
      = l (y st.unlined).1 (y st.unlined).2 := rfl
    _ = l (f (x st).1) (x st).2.unlined := by rw [h.run st]
    _ = _ := (h' (x st).1).run (x st).2

theorem take {f : α → β} {find : ClassTable → Found α} {find' : ClassTable → Found β}
    (h : ∀ t, Found.Unlined f (find t) (find' t.unlined)) :
    Follows f (take find) (Check.take find') := by
  refine ⟨fun st => Prod.ext (h st.table).value (congrArg (State.mk st.table.unlined) ?_)⟩
  change st.report.unlined.addAll (find' st.table.unlined).findings =
    (st.report.addAll (find st.table).findings).unlined
  rw [Report.unlined_addAll, (h st.table).findings]

theorem isFull : Follows id isFull Check.isFull :=
  ⟨fun st => congrArg (·, st.unlined) st.report.full_unlined⟩

end Follows

theorem markInitialized_unlined (t : ClassTable) (p : Place) (v : VarRef) :
    (markInitialized t p v).unlined = markInitialized t.unlined p v := by
  have locals : ∀ (xs : List Local) (i : Nat),
      (xs.modify i setInit).map Local.unlined = (xs.map Local.unlined).modify i setInit :=
    map_modify_comm fun _ => rfl
  cases v with
  | field r => exact t.unlined_modifyField r _ _ fun _ => rfl
  | loc i =>
    rw [markInitialized, markInitialized, markLocal, markLocal]
    cases p.method with
    | none =>
      refine t.unlined_modify p.cls fun k => ?_
      simp only [Class.unlined, Option.map_map, Function.comp_def, EntryPoint.unlined, locals]
    | some r =>
      refine t.unlined_modifyMethod r _ _ fun m => ?_
      simp only [Method.unlined, locals]

theorem mark_follows (p : Place) (v : VarRef) : Follows id (mark p v) (mark p v) := by
  refine ⟨fun st => Prod.ext rfl ?_⟩
  exact congrArg (State.mk · st.report.unlined) (markInitialized_unlined st.table p v).symm

theorem typeIn_follows (p : Place) (e : Expr Unit) :
    Follows Expr.unlined (typeIn p e) (typeIn p e.unlined) :=
  .take fun t => typeExpr_unlined ⟨t, p⟩ e

theorem checkCond_follows (p : Place) (line : Nat) (cond : Expr Unit) :
    Follows Expr.unlined (checkCond p line cond) (checkCond p 0 cond.unlined) :=
  .take fun t => (typeExpr_unlined ⟨t, p⟩ cond).bind fun cond =>
    (expect_unlined line cond _ _).bind fun _ => .pure _ _

theorem checkStored_unlined (t : ClassTable) (line : Nat) (ty : Ty) (value : Expr Note) :
    Found.Unlined id (checkStored t line ty value) (checkStored t.unlined 0 ty value.unlined) := by
  rw [checkStored, checkStored, Expr.note_unlined]
  cases value.note with
  | none => exact .of _ _
  | some info => exact .ite (by rw [ClassTable.assignable_unlined]) (.of _ _) (.report _ _)

theorem checkAssign_follows (p : Place) (line : Nat) (x : Name) (value : Expr Unit) :
    Follows (Prod.map id Expr.unlined) (checkAssign p line x value)
      (checkAssign p 0 x value.unlined) := by
  refine (typeIn_follows p value).bind fun value => ?_
  refine (Follows.take fun t => Scope.resolve_unlined ⟨t, p⟩ line x).bind fun found => ?_
  cases found with
  | none => exact .pure _ _
  | some found =>
    obtain ⟨v, ty⟩ := found
    refine (Follows.take fun t => checkStored_unlined t line ty value).bind fun _ => ?_
    exact (mark_follows p v).bind fun _ => .pure _ _

theorem checkArrayAssign_unlined (s : Scope) (line : Nat) (x : Name) (index value : Expr Unit) :
    Found.Unlined (Prod.map id (Prod.map Expr.unlined Expr.unlined))
      (checkArrayAssign s line x index value)
      (checkArrayAssign s.unlined 0 x index.unlined value.unlined) := by
  rw [checkArrayAssign, checkArrayAssign, blank_unlined, blank_unlined]
  refine (s.resolve_unlined line x).bind fun found => ?_
  cases found with
  | none => exact .pure _ _
  | some found =>
    obtain ⟨v, ty⟩ := found
    refine (s.checkInitialized_unlined line x v).bind fun _ => ?_
    cases ty.element? with
    | none => exact .reported _ _ _ _
    | some element =>
      refine (typeExpr_unlined s index).bind fun index => ?_
      refine (expect_unlined line index _ _).bind fun ok => .ite .rfl ?_ (.pure _ _)
      refine (typeExpr_unlined s value).bind fun value => ?_
      exact (expect_unlined line value _ _).bind fun _ => .pure _ _

theorem blankStmt_unlined (s : Stmt Unit Unit) : blankStmt s.unlined = (blankStmt s).unlined :=
  (Stmt.unlined_map _ _ s).symm

theorem unlinedBody_eq_map {ν τ : Type} (ss : List (Stmt ν τ)) :
    unlinedBody ss = ss.map Stmt.unlined := by
  induction ss with
  | nil => rfl
  | cons s ss ih => exact congrArg (s.unlined :: ·) ih

theorem map_blankStmt_unlined (ss : List (Stmt Unit Unit)) :
    (unlinedBody ss).map blankStmt = unlinedBody (ss.map blankStmt) := by
  rw [unlinedBody_eq_map, unlinedBody_eq_map, List.map_map, List.map_map]
  exact List.map_congr_left fun s _ => blankStmt_unlined s

mutual

theorem checkStmt_follows (p : Place) : ∀ s : Stmt Unit Unit,
    Follows Stmt.unlined (checkStmt p s) (checkStmt p s.unlined)
  | .block _ body => (checkStmts_follows p body).bind fun _ => .pure _ _
  | .assign line x _ value => (checkAssign_follows p line x value).bind fun _ => .pure _ _
  | .arrayAssign line x _ index value =>
    (Follows.take fun t => checkArrayAssign_unlined ⟨t, p⟩ line x index value).bind fun _ =>
      .pure _ _
  | .ifElse line cond yes no =>
    (checkCond_follows p line cond).bind fun _ => (checkStmt_follows p yes).bind fun _ =>
      (checkStmt_follows p no).bind fun _ => .pure _ _
  | .while line cond body =>
    (checkCond_follows p line cond).bind fun _ => (checkStmt_follows p body).bind fun _ =>
      .pure _ _
  | .print line value =>
    (typeIn_follows p value).bind fun value =>
      (Follows.take fun _ => expect_unlined line value _ _).bind fun _ => .pure _ _

theorem checkStmts_follows (p : Place) : ∀ ss : List (Stmt Unit Unit),
    Follows unlinedBody (checkStmts p ss) (checkStmts p (unlinedBody ss))
  | [] => .pure _ _
  | s :: ss => by
    refine Follows.isFull.bind fun full => ?_
    cases full with
    | true =>
      dsimp only [id]
      rw [blankStmt_unlined, map_blankStmt_unlined]
      exact .pure _ _
    | false =>
      exact (checkStmt_follows p s).bind fun _ => (checkStmts_follows p ss).bind fun _ => .pure _ _

end

theorem checkResult_follows (p : Place) (ref : MethodRef) (result : Expr Unit) :
    Follows Expr.unlined (checkResult p ref result) (checkResult p ref result.unlined) := by
  refine .take fun t => (typeExpr_unlined ⟨t, p⟩ result).bind fun result => ?_
  rw [Expr.note_unlined, ClassTable.method?_unlined]
  cases result.note with
  | none => exact .pure _ _
  | some info =>
    cases t.method? ref with
    | none => exact .pure _ _
    | some m =>
      refine .ite (by rw [ClassTable.assignable_unlined]; rfl) (.pure _ _) ?_
      rw [Expr.line_unlined]
      exact .reported _ _ _ _

theorem blankMethod_unlined (m : MethodDecl .registered) :
    blankMethod m.unlined = (blankMethod m).unlined := by
  simp only [blankMethod, MethodDecl.unlined, map_blankStmt_unlined, blank_unlined]

theorem checkMethod_follows (cls : ClassId) (m : MethodDecl .registered) :
    Follows MethodDecl.unlined (checkMethod cls m) (checkMethod cls m.unlined) := by
  rw [checkMethod, checkMethod, blankMethod_unlined]
  refine Follows.isFull.bind fun full => ?_
  cases full with
  | true => exact .pure _ _
  | false =>
    dsimp only [MethodDecl.unlined]
    cases m.note with
    | none => exact .pure _ _
    | some ref =>
      refine (checkStmts_follows ⟨cls, some ref⟩ m.body).bind fun body => ?_
      rw [blank_unlined]
      refine Follows.isFull.bind fun full => ?_
      cases full with
      | true => exact (Follows.pure Expr.unlined (blank m.result)).bind fun _ => .pure _ _
      | false => exact (checkResult_follows _ ref m.result).bind fun _ => .pure _ _

theorem checkMethodBodies_follows (cls : ClassId) (ms : List (MethodDecl .registered)) :
    Follows (List.map MethodDecl.unlined) (checkMethodBodies cls ms)
      (checkMethodBodies cls (ms.map MethodDecl.unlined)) := by
  induction ms with
  | nil => exact .pure _ _
  | cons m ms ih => exact (checkMethod_follows cls m).bind fun _ => ih.bind fun _ => .pure _ _

theorem checkClass_follows (c : ClassDecl .registered) :
    Follows ClassDecl.unlined (checkClass c) (checkClass c.unlined) := by
  rw [checkClass, checkClass]
  dsimp only [ClassDecl.unlined]
  cases c.note with
  | none =>
    have methods : (c.methods.map MethodDecl.unlined).map blankMethod =
        (c.methods.map blankMethod).map MethodDecl.unlined := by
      rw [List.map_map, List.map_map]
      exact List.map_congr_left fun m _ => blankMethod_unlined m
    dsimp only
    rw [methods]
    exact .pure _ _
  | some id => exact (checkMethodBodies_follows id c.methods).bind fun _ => .pure _ _

theorem checkClassBodies_follows (cs : List (ClassDecl .registered)) :
    Follows (List.map ClassDecl.unlined) (checkClassBodies cs)
      (checkClassBodies (cs.map ClassDecl.unlined)) := by
  induction cs with
  | nil => exact .pure _ _
  | cons c cs ih => exact (checkClass_follows c).bind fun _ => ih.bind fun _ => .pure _ _

/-- The bodies are checked the same without lines. -/
theorem bodies_follows (p : Program .registered) :
    Follows Program.unlined (bodies p) (bodies p.unlined) :=
  (checkStmts_follows ⟨0, none⟩ p.main.body).bind fun _ =>
    (checkClassBodies_follows p.classes).bind fun _ => .pure _ _

end MiniJava.Check
