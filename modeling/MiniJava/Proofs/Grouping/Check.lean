import MiniJava.Proofs.Grouping.Syntax

/-!
# Analysis without brackets and blocks

Typing reads the note of a part and never asks whether the part is a bracket, and a block is checked
like the statements inside it. So without a limit for errors the same is found, in the same order. One
finding stands at the line of an expression, that of a method; it is the same one if the expression is
not moved by taking its brackets away.
-/
namespace MiniJava

namespace Found
variable {α β γ δ : Type}

/-- The second computation finds what the first one finds, and its value is that of the first one
under `f`. -/
structure Mapped (f : α → β) (x : Found α) (y : Found β) : Prop where
  value : y.value = f x.value
  findings : y.findings = x.findings

namespace Mapped

theorem refl (x : Found α) : Mapped id x x := ⟨rfl, rfl⟩

theorem pure (f : α → β) (a : α) : Mapped f (Pure.pure a) (Pure.pure (f a)) := ⟨rfl, rfl⟩

theorem of (f : α → β) (a : α) : Mapped f (Found.of a) (Found.of (f a)) := ⟨rfl, rfl⟩

theorem trans {f : α → β} {x : Found α} {y : Found β} (h : Mapped f x y) {g : β → γ} {z : Found γ}
    (h' : Mapped g y z) {k : α → γ} (same : ∀ a, g (f a) = k a) : Mapped k x z :=
  ⟨by rw [h'.value, h.value, same], h'.findings.trans h.findings⟩

theorem bind_value {f : α → β} {x : Found α} {y : Found β} (h : Mapped f x y) {g : γ → δ}
    {k : α → Found γ} {l : β → Found δ} (rest : Mapped g (k x.value) (l y.value)) :
    Mapped g (x >>= k) (y >>= l) := by
  refine ⟨rest.value, ?_⟩
  rw [findings_bind, findings_bind, h.findings, rest.findings]

theorem bind {f : α → β} {x : Found α} {y : Found β} (h : Mapped f x y) {g : γ → δ}
    {k : α → Found γ} {l : β → Found δ} (h' : ∀ a, Mapped g (k a) (l (f a))) :
    Mapped g (x >>= k) (y >>= l) := h.bind_value (h.value ▸ h' x.value)

/-- The same computation, and then values that correspond. -/
theorem after (x : Found α) {g : γ → δ} {k : α → Found γ} {l : α → Found δ}
    (h : ∀ a, Mapped g (k a) (l a)) : Mapped g (x >>= k) (x >>= l) := (refl x).bind h

end Mapped

end Found

namespace Check

open Found

theorem blank_unbracketed (e : Expr Unit) : blank e.unbracketed = (blank e).unbracketed :=
  (Expr.unbracketed_map _ e).symm

theorem blankArgs_unbracketed (es : List (Expr Unit)) :
    blankArgs (unbracketedArgs es) = unbracketedArgs (blankArgs es) :=
  (unbracketedArgs_mapArgs _ es).symm

theorem expect_unbracketed (line : Nat) (e : Expr Note) (ty : Ty) (error : Ty → SemanticError) :
    expect line e.unbracketed ty error = expect line e ty error := by
  rw [expect, Expr.note_unbracketed, expect]

theorem typeBinary_unbracketed (line : Nat) (op : BinOp) (lhs rhs : Expr Note) :
    typeBinary line op lhs.unbracketed rhs.unbracketed = typeBinary line op lhs rhs := by
  rw [typeBinary, Expr.note_unbracketed, Expr.note_unbracketed, typeBinary]

theorem elementTy_unbracketed (line : Nat) (array : Expr Note) :
    elementTy line array.unbracketed = elementTy line array := by
  rw [elementTy, Expr.note_unbracketed, elementTy]

theorem checkArg_unbracketed (s : Scope) (line : Nat) (method : Name) (position : Nat) (ty : Ty)
    (arg : Expr Note) :
    checkArg s line method position ty arg.unbracketed =
      checkArg s line method position ty arg := by
  rw [checkArg, Expr.note_unbracketed, checkArg]

/-- Typing keeps the kind of a node. -/
theorem kind_typeForm (s : Scope) (line : Nat) (form : ExprForm Unit) :
    (typeForm s line form).value.1.kind = form.kind := by
  cases form with
  | lookup array index =>
    rw [typeForm, value_bind, value_bind]
    split <;> rfl
  | send receiver name args =>
    rw [typeForm, value_bind]
    split
    · rfl
    · rw [value_bind]
      split
      · rfl
      · split <;> rfl
  | name x =>
    rw [typeForm, value_bind]
    split <;> rfl
  | this =>
    rw [typeForm]
    split <;> rfl
  | _ => rfl

theorem kind_typeExpr (s : Scope) (e : Expr Unit) : (typeExpr s e).value.kind = e.kind := by
  obtain ⟨line, _, form⟩ := e
  exact kind_typeForm s line form

/-- A bracket is typed like what stands in it. -/
theorem typeExpr_opened (s : Scope) (e : Expr Unit) :
    Mapped Expr.opened (typeExpr s e) (typeExpr s e.opened) := by
  by_cases bracket : e.kind = "Bracket"
  · obtain ⟨line, _, form⟩ := e
    cases form with
    | bracket inner =>
      have same : (Expr.node line () (.bracket inner)).opened = inner := Expr.withNote_note inner
      rw [same]
      refine ⟨(Expr.withNote_note _).symm, ?_⟩
      simp [typeExpr, typeForm]
    | _ => simp [Expr.kind, Expr.form, ExprForm.kind] at bracket
  · have typed : (typeExpr s e).value.kind ≠ "Bracket" := by
      rw [kind_typeExpr]
      exact bracket
    rw [Expr.opened_of_kind bracket]
    exact ⟨(Expr.opened_of_kind typed).symm, rfl⟩

mutual

theorem typeExpr_unbracketed (s : Scope) :
    ∀ e : Expr Unit, Mapped Expr.unbracketed (typeExpr s e) (typeExpr s e.unbracketed)
  | .node line _ form => by
    have inside : Mapped (fun e : Expr Note => .node e.line e.note e.form.unbracketed)
        (typeExpr s (.node line () form)) (typeExpr s (.node line () form.unbracketed)) :=
      (typeForm_unbracketed s line form).bind fun _ => .pure _ _
    exact inside.trans (typeExpr_opened s _) fun e => by cases e; rfl

theorem typeForm_unbracketed (s : Scope) (line : Nat) : ∀ form : ExprForm Unit,
    Mapped (Prod.map ExprForm.unbracketed id) (typeForm s line form)
      (typeForm s line form.unbracketed)
  | .binary op lhs rhs => by
    refine (typeExpr_unbracketed s lhs).bind fun lhs => ?_
    refine (typeExpr_unbracketed s rhs).bind fun rhs => ?_
    rw [typeBinary_unbracketed]
    exact .after _ fun _ => .pure _ _
  | .not operand => by
    refine (typeExpr_unbracketed s operand).bind fun operand => ?_
    rw [expect_unbracketed]
    exact .after _ fun _ => .pure _ _
  | .lookup array index => by
    refine (typeExpr_unbracketed s array).bind fun array => ?_
    rw [elementTy_unbracketed, blank_unbracketed]
    refine .after _ fun ty => ?_
    cases ty with
    | none => exact .pure _ _
    | some ty =>
      refine (typeExpr_unbracketed s index).bind fun index => ?_
      rw [expect_unbracketed]
      exact .after _ fun _ => .pure _ _
  | .length array => by
    refine (typeExpr_unbracketed s array).bind fun array => ?_
    rw [elementTy_unbracketed]
    exact .after _ fun _ => .pure _ _
  | .send receiver name args => by
    refine (typeExpr_unbracketed s receiver).bind fun receiver => ?_
    rw [Expr.note_unbracketed, blankArgs_unbracketed, length_unbracketedArgs]
    cases receiver.note with
    | none => exact .pure _ _
    | some info =>
      refine .after _ fun called => ?_
      cases called with
      | none => exact .pure _ _
      | some called =>
        obtain ⟨ref, method⟩ := called
        dsimp only
        split
        · exact (typeArgs_unbracketed s line name 1 method.paramTys args).bind fun _ => .pure _ _
        · exact .after _ fun _ => .pure _ _
  | .int _ => .of _ _
  | .tt => .of _ _
  | .ff => .of _ _
  | .name x => by
    refine .after _ fun found => ?_
    cases found with
    | none => exact .pure _ _
    | some found => exact .after _ fun _ => .pure _ _
  | .this => by
    rw [typeForm, ExprForm.unbracketed, typeForm]
    cases s.place.method with
    | none => exact .after _ fun _ => .pure _ _
    | some _ => exact .of _ _
  | .newIntArray size => by
    refine (typeExpr_unbracketed s size).bind fun size => ?_
    rw [expect_unbracketed]
    exact .after _ fun _ => .pure _ _
  | .newBooleanArray size => by
    refine (typeExpr_unbracketed s size).bind fun size => ?_
    rw [expect_unbracketed]
    exact .after _ fun _ => .pure _ _
  | .newObject name => .after _ fun _ => .pure _ _
  | .bracket inner => by
    refine (typeExpr_unbracketed s inner).bind fun inner => ?_
    rw [Expr.note_unbracketed]
    exact .pure _ _

theorem typeArgs_unbracketed (s : Scope) (line : Nat) (method : Name) (position : Nat)
    (tys : List Ty) : ∀ args : List (Expr Unit),
    Mapped (Prod.map unbracketedArgs id) (typeArgs s line method position tys args)
      (typeArgs s line method position tys (unbracketedArgs args))
  | [] => .of _ _
  | arg :: args => by
    refine (typeExpr_unbracketed s arg).bind fun arg => ?_
    rw [checkArg_unbracketed]
    refine .after _ fun ok => ?_
    exact (typeArgs_unbracketed s line method (position + 1) tys.tail args).bind fun _ => .pure _ _

end

/-- Without a limit the second computation does to the state what the first one does, and its value
is that of the first one under `f`. The state stays without a limit. -/
structure Agrees {α β : Type} (f : α → β) (x : CheckM α) (y : CheckM β) : Prop where
  run : ∀ st, st.report.limit = none → y st = (f (x st).1, (x st).2)
  limit : ∀ st, st.report.limit = none → (x st).2.report.limit = none

namespace Agrees
variable {α β γ δ : Type}

theorem pure (f : α → β) (a : α) : Agrees f (Pure.pure a) (Pure.pure (f a)) :=
  ⟨fun _ _ => rfl, fun _ unlimited => unlimited⟩

theorem bind {f : α → β} {x : CheckM α} {y : CheckM β} (h : Agrees f x y) {g : γ → δ}
    {k : α → CheckM γ} {l : β → CheckM δ} (h' : ∀ a, Agrees g (k a) (l (f a))) :
    Agrees g (x >>= k) (y >>= l) := by
  constructor
  · intro st unlimited
    calc (y >>= l) st = l (y st).1 (y st).2 := rfl
      _ = l (f (x st).1) (x st).2 := by rw [h.run st unlimited]
      _ = _ := (h' (x st).1).run _ (h.limit st unlimited)
  · intro st unlimited
    exact (h' (x st).1).limit _ (h.limit st unlimited)

/-- What is put around the value may be taken off again. -/
theorem around {f : α → β} {x : CheckM α} {y : CheckM β} (h : Agrees f x y) {k : α → γ}
    {g : γ → β} (same : ∀ a, g (k a) = f a) :
    Agrees g (do let a ← x; return k a) y :=
  ⟨fun st unlimited => by rw [h.run st unlimited, ← same]; rfl, h.limit⟩

/-- What the computations are where there is a limit does not count. -/
theorem congr {f : α → β} {x x' : CheckM α} {y y' : CheckM β} (h : Agrees f x y)
    (left : ∀ st : State, st.report.limit = none → x' st = x st)
    (right : ∀ st : State, st.report.limit = none → y' st = y st) : Agrees f x' y' := by
  constructor
  · intro st unlimited
    rw [right st unlimited, left st unlimited]
    exact h.run st unlimited
  · intro st unlimited
    rw [left st unlimited]
    exact h.limit st unlimited

theorem take {f : α → β} {find : ClassTable → Found α} {find' : ClassTable → Found β}
    (h : ∀ t, Mapped f (find t) (find' t)) : Agrees f (Check.take find) (Check.take find') := by
  constructor
  · intro st _
    refine Prod.ext (h st.table).value (congrArg (State.mk st.table) ?_)
    exact congrArg st.report.addAll (h st.table).findings
  · intro st unlimited
    exact (Report.limit_addAll _ _).trans unlimited

theorem mark (p : Place) (v : VarRef) : Agrees id (Check.mark p v) (Check.mark p v) :=
  ⟨fun _ _ => rfl, fun _ unlimited => unlimited⟩

/-- A report without a limit is never full. -/
theorem unlessFull {f : α → β} {x : Bool → CheckM α} {y : Bool → CheckM β}
    (h : Agrees f (x false) (y false)) : Agrees f (isFull >>= x) (isFull >>= y) := by
  have room : ∀ st : State, st.report.limit = none → st.report.full = false :=
    fun st unlimited => by rw [Report.full, unlimited]
  constructor
  · intro st unlimited
    change y st.report.full st = (f (x st.report.full st).1, (x st.report.full st).2)
    rw [room st unlimited]
    exact h.run st unlimited
  · intro st unlimited
    change (x st.report.full st).2.report.limit = none
    rw [room st unlimited]
    exact h.limit st unlimited

end Agrees

theorem typeIn_agrees (p : Place) (e : Expr Unit) :
    Agrees Expr.unbracketed (typeIn p e) (typeIn p e.unbracketed) :=
  .take fun t => typeExpr_unbracketed ⟨t, p⟩ e

theorem checkCond_agrees (p : Place) (line : Nat) (cond : Expr Unit) :
    Agrees Expr.unbracketed (checkCond p line cond) (checkCond p line cond.unbracketed) := by
  refine .take fun t => (typeExpr_unbracketed ⟨t, p⟩ cond).bind fun cond => ?_
  rw [expect_unbracketed]
  exact .after _ fun _ => .pure _ _

theorem checkStored_unbracketed (t : ClassTable) (line : Nat) (ty : Ty) (value : Expr Note) :
    checkStored t line ty value.unbracketed = checkStored t line ty value := by
  rw [checkStored, Expr.note_unbracketed, checkStored]

theorem checkAssign_agrees (p : Place) (line : Nat) (x : Name) (value : Expr Unit) :
    Agrees (Prod.map id Expr.unbracketed) (checkAssign p line x value)
      (checkAssign p line x value.unbracketed) := by
  refine (typeIn_agrees p value).bind fun value => ?_
  refine (Agrees.take fun t => .refl (Scope.resolve ⟨t, p⟩ line x)).bind fun found => ?_
  cases found with
  | none => exact .pure _ _
  | some found =>
    obtain ⟨v, ty⟩ := found
    simp only [id, checkStored_unbracketed]
    refine (Agrees.take fun t => .refl (checkStored t line ty value)).bind fun _ => ?_
    exact (Agrees.mark p v).bind fun _ => .pure _ _

theorem checkArrayAssign_unbracketed (s : Scope) (line : Nat) (x : Name)
    (index value : Expr Unit) :
    Mapped (Prod.map id (Prod.map Expr.unbracketed Expr.unbracketed))
      (checkArrayAssign s line x index value)
      (checkArrayAssign s line x index.unbracketed value.unbracketed) := by
  rw [checkArrayAssign, checkArrayAssign, blank_unbracketed, blank_unbracketed]
  refine .after _ fun found => ?_
  cases found with
  | none => exact .pure _ _
  | some found =>
    obtain ⟨v, ty⟩ := found
    refine .after _ fun _ => ?_
    cases ty.element? with
    | none => exact .after _ fun _ => .pure _ _
    | some element =>
      refine (typeExpr_unbracketed s index).bind fun index => ?_
      rw [expect_unbracketed]
      refine .after _ fun ok => ?_
      split
      · refine (typeExpr_unbracketed s value).bind fun value => ?_
        rw [expect_unbracketed]
        exact .after _ fun _ => .pure _ _
      · exact .pure _ _

theorem checkStmts_cons (p : Place) (s : Stmt Unit Unit) (ss : List (Stmt Unit Unit)) (st : State)
    (unlimited : st.report.limit = none) :
    checkStmts p (s :: ss) st =
      (do
        let s ← checkStmt p s
        let ss ← checkStmts p ss
        return s :: ss : CheckM _) st := by
  rw [checkStmts]
  exact ifFull_of_unlimited _ _ st unlimited

/-- A row of statements is checked up to some point, and from there on. -/
theorem checkStmts_append (p : Place) (ss ts : List (Stmt Unit Unit)) :
    ∀ st : State, st.report.limit = none → checkStmts p (ss ++ ts) st =
      (do
        let first ← checkStmts p ss
        let rest ← checkStmts p ts
        return first ++ rest : CheckM _) st := by
  induction ss with
  | nil =>
    intro st _
    rw [checkStmts]
    rfl
  | cons s ss ih =>
    intro st unlimited
    have rest := ih (checkStmt p s st).2 ((checkStmt_runs p s).limit unlimited)
    have whole := checkStmts_cons p s (ss ++ ts) st unlimited
    have front := checkStmts_cons p s ss st unlimited
    change _ = ((checkStmt p s st).1 :: (checkStmts p (ss ++ ts) (checkStmt p s st).2).1,
      (checkStmts p (ss ++ ts) (checkStmt p s st).2).2) at whole
    change _ = ((checkStmts p (s :: ss) st).1 ++ (checkStmts p ts (checkStmts p (s :: ss) st).2).1,
      (checkStmts p ts (checkStmts p (s :: ss) st).2).2)
    rw [List.cons_append, whole, rest, front]
    rfl

theorem Agrees.single {p : Place} {s : Stmt Unit Unit} {α : Type}
    {f : α → List (Stmt Note Target)} {x : CheckM α}
    (h : Agrees f x (do let s ← checkStmt p s; return [s])) : Agrees f x (checkStmts p [s]) :=
  h.congr (fun _ _ => rfl) fun st unlimited => by
    rw [checkStmts_cons p s [] st unlimited, checkStmts]
    rfl

mutual

/-- A statement is checked like the row that it is spread to. -/
theorem checkStmt_spread (p : Place) : ∀ s : Stmt Unit Unit,
    Agrees Stmt.spread (checkStmt p s) (checkStmts p s.spread)
  | .block _ body => (checkStmts_spread p body).around fun _ => rfl
  | .assign line x _ value => by
    refine .single ?_
    simp only [checkStmt, bind_assoc, pure_bind]
    exact (checkAssign_agrees p line x value).bind fun _ => .pure Stmt.spread _
  | .arrayAssign line x _ index value => by
    have typed := Agrees.take fun t => checkArrayAssign_unbracketed ⟨t, p⟩ line x index value
    refine .single ?_
    simp only [checkStmt, bind_assoc, pure_bind]
    exact typed.bind fun _ => .pure Stmt.spread _
  | .ifElse line cond yes no => by
    refine .single ?_
    simp only [checkStmt, bind_assoc, pure_bind]
    refine (checkCond_agrees p line cond).bind fun _ => ?_
    refine (checkStmt_spread p yes).bind fun _ => (checkStmt_spread p no).bind fun _ => ?_
    exact .pure Stmt.spread _
  | .while line cond body => by
    refine .single ?_
    simp only [checkStmt, bind_assoc, pure_bind]
    refine (checkCond_agrees p line cond).bind fun _ => ?_
    exact (checkStmt_spread p body).bind fun _ => .pure Stmt.spread _
  | .print line value => by
    refine .single ?_
    simp only [checkStmt, bind_assoc, pure_bind]
    refine (typeIn_agrees p value).bind fun value => ?_
    rw [expect_unbracketed]
    exact (Agrees.take fun _ => .refl _).bind fun _ => .pure Stmt.spread _

theorem checkStmts_spread (p : Place) : ∀ ss : List (Stmt Unit Unit),
    Agrees spreadBody (checkStmts p ss) (checkStmts p (spreadBody ss))
  | [] => .pure _ _
  | s :: ss => by
    have joined : Agrees spreadBody
        (do
          let s ← checkStmt p s
          let ss ← checkStmts p ss
          return s :: ss)
        (do
          let first ← checkStmts p s.spread
          let rest ← checkStmts p (spreadBody ss)
          return first ++ rest) := by
      refine (checkStmt_spread p s).bind fun _ => (checkStmts_spread p ss).bind fun _ => ?_
      exact .pure spreadBody (_ :: _)
    exact joined.congr (checkStmts_cons p s ss) (checkStmts_append p s.spread (spreadBody ss))

end

theorem map_blankStmt_spread (ss : List (Stmt Unit Unit)) :
    (spreadBody ss).map blankStmt = spreadBody (ss.map blankStmt) := by
  have commute := spreadBody_mapBody (fun _ => (none : Note)) (fun _ => (none : Target)) ss
  rw [mapBody_eq_map] at commute
  exact commute.symm

theorem line_typeExpr (s : Scope) (e : Expr Unit) : (typeExpr s e).value.line = e.line := by
  cases e
  rfl

/-- The finding about the value of a method stands where the value stands. -/
theorem checkResult_agrees (p : Place) (ref : MethodRef) {result : Expr Unit}
    (aligned : result.unbracketed.line = result.line) :
    Agrees Expr.unbracketed (checkResult p ref result) (checkResult p ref result.unbracketed) := by
  refine .take fun t => ?_
  have typed := typeExpr_unbracketed ⟨t, p⟩ result
  have line : (typeExpr ⟨t, p⟩ result.unbracketed).value.line =
      (typeExpr ⟨t, p⟩ result).value.line := by rw [line_typeExpr, line_typeExpr, aligned]
  refine typed.bind_value ?_
  rw [line, typed.value, Expr.note_unbracketed]
  cases (typeExpr ⟨t, p⟩ result).value.note with
  | none => exact .pure _ _
  | some info =>
    cases t.method? ref with
    | none => exact .pure _ _
    | some m =>
      dsimp only
      split
      · exact .pure _ _
      · exact .after _ fun _ => .pure _ _

theorem blankMethod_spread (m : MethodDecl .registered) :
    blankMethod (m.onBodies spreadBody Expr.unbracketed) =
      (blankMethod m).onBodies spreadBody Expr.unbracketed := by
  simp only [blankMethod, MethodDecl.onBodies, map_blankStmt_spread, blank_unbracketed]

theorem checkMethod_spread (cls : ClassId) {m : MethodDecl .registered} (aligned : m.Aligned) :
    Agrees (MethodDecl.onBodies spreadBody Expr.unbracketed) (checkMethod cls m)
      (checkMethod cls (m.onBodies spreadBody Expr.unbracketed)) := by
  have note : (m.onBodies spreadBody Expr.unbracketed).note = m.note := rfl
  rw [checkMethod, checkMethod, note]
  refine .unlessFull ?_
  cases m.note with
  | none =>
    change Agrees _ (pure (blankMethod m)) (pure (blankMethod _))
    rw [blankMethod_spread]
    exact .pure _ _
  | some ref =>
    refine (checkStmts_spread ⟨cls, some ref⟩ m.body).bind fun body => .unlessFull ?_
    exact (checkResult_agrees ⟨cls, some ref⟩ ref aligned).bind fun _ =>
      .pure (MethodDecl.onBodies spreadBody Expr.unbracketed) ⟨_, _, _, _, _, _, _, _⟩

theorem checkMethodBodies_spread (cls : ClassId) {ms : List (MethodDecl .registered)}
    (aligned : ∀ m ∈ ms, m.Aligned) :
    Agrees (List.map (MethodDecl.onBodies spreadBody Expr.unbracketed)) (checkMethodBodies cls ms)
      (checkMethodBodies cls (ms.map (MethodDecl.onBodies spreadBody Expr.unbracketed))) := by
  induction ms with
  | nil => exact .pure _ _
  | cons m ms ih =>
    obtain ⟨first, rest⟩ := List.forall_mem_cons.mp aligned
    exact (checkMethod_spread cls first).bind fun _ => (ih rest).bind fun _ => .pure _ _

theorem checkClass_spread {c : ClassDecl .registered} (aligned : ∀ m ∈ c.methods, m.Aligned) :
    Agrees (ClassDecl.onBodies spreadBody Expr.unbracketed) (checkClass c)
      (checkClass (c.onBodies spreadBody Expr.unbracketed)) := by
  have note : (c.onBodies spreadBody Expr.unbracketed).note = c.note := rfl
  rw [checkClass, checkClass, note]
  cases c.note with
  | none =>
    have methods : (c.methods.map (MethodDecl.onBodies spreadBody Expr.unbracketed)).map
        blankMethod = (c.methods.map blankMethod).map
          (MethodDecl.onBodies spreadBody Expr.unbracketed) := by
      rw [List.map_map, List.map_map]
      exact List.map_congr_left fun m _ => blankMethod_spread m
    dsimp only [ClassDecl.onBodies]
    rw [methods]
    exact .pure (ClassDecl.onBodies spreadBody Expr.unbracketed) ⟨_, _, _, _, _, _⟩
  | some id =>
    exact (checkMethodBodies_spread id aligned).bind fun _ =>
      .pure (ClassDecl.onBodies spreadBody Expr.unbracketed) ⟨_, _, _, _, _, _⟩

theorem checkClassBodies_spread {cs : List (ClassDecl .registered)}
    (aligned : ∀ c ∈ cs, ∀ m ∈ c.methods, m.Aligned) :
    Agrees (List.map (ClassDecl.onBodies spreadBody Expr.unbracketed)) (checkClassBodies cs)
      (checkClassBodies (cs.map (ClassDecl.onBodies spreadBody Expr.unbracketed))) := by
  induction cs with
  | nil => exact .pure _ _
  | cons c cs ih =>
    obtain ⟨first, rest⟩ := List.forall_mem_cons.mp aligned
    exact (checkClass_spread first).bind fun _ => (ih rest).bind fun _ => .pure _ _

/-- The bodies are checked the same without brackets and blocks. -/
theorem bodies_spread {q : Program .registered} (aligned : q.Aligned) :
    Agrees Program.spread (bodies q) (bodies q.spread) :=
  (checkStmts_spread ⟨0, none⟩ q.main.body).bind fun _ =>
    (checkClassBodies_spread aligned).bind fun _ => .pure Program.spread ⟨⟨_, _, _, _, _⟩, _⟩

end Check

/-- Without a limit a program comes to the verdict that it comes to without brackets and blocks. -/
theorem check_spread {o : CheckOptions} (unlimited : o.maxErrors = none) {p : Program .bare}
    (aligned : p.Aligned) :
    check o p.spread =
      ⟨(check o p).report, (check o p).result.map fun c => ⟨c.table, c.program.spread⟩⟩ := by
  have limit := Check.hierarchy_limit o.maxErrors p
  have bare := Check.hierarchy_bare o.maxErrors p
  rw [check, check, Program.spread, hierarchy_onBodies]
  generalize Check.hierarchy o.maxErrors p = h at limit bare
  dsimp only
  rw [declarations_onBodies]
  obtain ⟨fs, hfs⟩ := Check.declarations_addAll o.strict h.program h.table h.report
  generalize Check.declarations o.strict h.program h.table h.report = d at hfs
  obtain ⟨t, r⟩ := d
  dsimp only at hfs ⊢
  have entered : h.program.Aligned := Program.aligned_of_bare (bare.symm ▸ aligned)
  have open' : (Check.overrides t r).limit = none := by
    rw [Check.overrides, Report.limit_addAll, hfs, Report.limit_addAll, limit, unlimited]
  have run := (Check.bodies_spread entered).run ⟨t, Check.overrides t r⟩ open'
  rw [Program.spread] at run
  rw [run]
  generalize Check.bodies h.program ⟨t, Check.overrides t r⟩ = checked
  obtain ⟨program, st⟩ := checked
  dsimp only
  cases h.report.isClean with
  | false => rfl
  | true =>
    cases r.isClean with
    | false => rfl
    | true =>
      cases (Check.overrides t r).isClean with
      | false => rfl
      | true => cases st.report.isClean <;> rfl

end MiniJava
