import Mathlib.Data.List.Dedup
import MiniJava.Document.Lowering
import MiniJava.Document.Names

/-!
# Lowered programs

Lowering keeps the tree, gives every name and type the line of the node it belongs to, and leaves a
table that holds every name of the program once. Computations that lower are composed by one rule
for sequencing, so each construct says only which names it adds.
-/

namespace MiniJava

namespace Lowered

mutual

def Expr.bare : Expr → MiniJava.Expr Unit
  | .node line form => .node line () form.bare

def Form.bare : Form → ExprForm Unit
  | .binary op a b => .binary op a.bare b.bare
  | .lookup a i => .lookup a.bare i.bare
  | .length a => .length a.bare
  | .send r m args => .send r.bare m.value (bareArgs args)
  | .int n => .int n
  | .tt => .tt
  | .ff => .ff
  | .name x => .name x
  | .this => .this
  | .newIntArray n => .newIntArray n.bare
  | .newBooleanArray n => .newBooleanArray n.bare
  | .newObject c => .newObject c.value
  | .not e => .not e.bare
  | .bracket e => .bracket e.bare

def bareArgs : List Expr → List (MiniJava.Expr Unit)
  | [] => []
  | e :: es => e.bare :: bareArgs es

end

mutual

def Stmt.bare : Stmt → MiniJava.Stmt Unit Unit
  | .node line form => form.bare line

def StmtForm.bare (line : Nat) : StmtForm → MiniJava.Stmt Unit Unit
  | .block body => .block line (bareBody body)
  | .assign x e => .assign line x.value () e.bare
  | .arrayAssign x i e => .arrayAssign line x.value () i.bare e.bare
  | .ifElse c s t => .ifElse line c.bare s.bare t.bare
  | .while c s => .while line c.bare s.bare
  | .print e => .print line e.bare

def bareBody : List Stmt → List (MiniJava.Stmt Unit Unit)
  | [] => []
  | s :: ss => s.bare :: bareBody ss

end

def bareVar (v : Located VarDecl) : MiniJava.VarDecl :=
  ⟨v.line, v.value.ty.value, v.value.name.value⟩

def bareMethod (m : Located MethodDecl) : MiniJava.MethodDecl .bare :=
  ⟨m.line, (), m.value.returnTy.value, m.value.name.value, m.value.params.map bareVar,
    m.value.vars.map bareVar, bareBody m.value.body, m.value.result.bare⟩

def bareClass (c : Located ClassDecl) : MiniJava.ClassDecl .bare :=
  ⟨c.line, (), c.value.name.value, c.value.superclass.map (·.value), c.value.fields.map bareVar,
    c.value.methods.map bareMethod⟩

def bareMain (c : Located MainClass) : MiniJava.MainClass .bare :=
  ⟨c.line, c.value.name.value, c.value.param.value, c.value.vars.map bareVar, bareBody c.value.body⟩

def Program.bare (p : Program) : MiniJava.Program .bare :=
  ⟨bareMain p.main, p.classes.map bareClass⟩

mutual

/-- Names stand at the line of the expression they belong to. -/
def Expr.Aligned : Expr → Prop
  | .node line form => form.Aligned line

def Form.Aligned (line : Nat) : Form → Prop
  | .binary _ a b => a.Aligned ∧ b.Aligned
  | .lookup a i => a.Aligned ∧ i.Aligned
  | .send r m args => r.Aligned ∧ m.line = line ∧ ArgsAligned args
  | .newObject c => c.line = line
  | .length e | .newIntArray e | .newBooleanArray e | .not e | .bracket e => e.Aligned
  | .int _ | .tt | .ff | .name _ | .this => True

def ArgsAligned : List Expr → Prop
  | [] => True
  | e :: es => e.Aligned ∧ ArgsAligned es

end

mutual

/-- Targets stand at the line of the assignment. -/
def Stmt.Aligned : Stmt → Prop
  | .node line form => form.Aligned line

def StmtForm.Aligned (line : Nat) : StmtForm → Prop
  | .block body => BodyAligned body
  | .assign x e => x.line = line ∧ e.Aligned
  | .arrayAssign x i e => x.line = line ∧ i.Aligned ∧ e.Aligned
  | .ifElse c s t => c.Aligned ∧ s.Aligned ∧ t.Aligned
  | .while c s => c.Aligned ∧ s.Aligned
  | .print e => e.Aligned

def BodyAligned : List Stmt → Prop
  | [] => True
  | s :: ss => s.Aligned ∧ BodyAligned ss

end

def VarAligned (v : Located VarDecl) : Prop :=
  v.value.ty.line = v.line ∧ v.value.name.line = v.line

structure MethodAligned (m : Located MethodDecl) : Prop where
  returnTy : m.value.returnTy.line = m.line
  name : m.value.name.line = m.line
  params : ∀ v ∈ m.value.params, VarAligned v
  vars : ∀ v ∈ m.value.vars, VarAligned v
  body : BodyAligned m.value.body
  result : m.value.result.Aligned

structure ClassAligned (c : Located ClassDecl) : Prop where
  name : c.value.name.line = c.line
  superclass : ∀ s ∈ c.value.superclass, s.line = c.line
  fields : ∀ v ∈ c.value.fields, VarAligned v
  methods : ∀ m ∈ c.value.methods, MethodAligned m

structure MainAligned (c : Located MainClass) : Prop where
  name : c.value.name.line = c.line
  param : c.value.param.line = c.line
  vars : ∀ v ∈ c.value.vars, VarAligned v
  body : BodyAligned c.value.body

/-- Every name and every type stands at the line of the node it belongs to. -/
structure Program.Aligned (p : Program) : Prop where
  main : MainAligned p.main
  classes : ∀ c ∈ p.classes, ClassAligned c

end Lowered

namespace Lowering
open Lowered

/-- A table that has come to hold some names beside those of another. -/
structure Adds (xs : List Name) (t t' : Name.Table) : Prop where
  nodup : t.names.Nodup → t'.names.Nodup
  mem : ∀ x, x ∈ t'.names ↔ x ∈ t.names ∨ x ∈ xs

theorem adds_insert (x : Name) (t : Name.Table) : Adds [x] t (t.insert x) := by
  unfold Name.Table.insert
  split
  · next known =>
    rw [List.contains_iff_mem] at known
    exact ⟨id, fun y => by simp; rintro rfl; exact known⟩
  · next new =>
    rw [List.contains_iff_mem] at new
    exact ⟨fun h => List.nodup_cons.mpr ⟨new, h⟩, fun y => by simp [or_comm]⟩

theorem Adds.trans {xs ys : List Name} {t t' t'' : Name.Table} (h : Adds xs t t')
    (h' : Adds ys t' t'') : Adds (xs ++ ys) t t'' :=
  ⟨fun nodup => h'.nodup (h.nodup nodup), fun x => by
    rw [h'.mem, h.mem, List.mem_append, or_assoc]⟩

section
variable {α β : Type} {P : α → Prop} {Q : β → Prop} {xs ys : List Name}

/-- Whatever the table, the computation gives such a value and adds those names. -/
def Lowers (m : Lower α) (xs : List Name) (P : α → Prop) : Prop :=
  ∀ t, P (m.run t).1 ∧ Adds xs t (m.run t).2

theorem Lowers.pure {a : α} (ha : P a) : Lowers (pure a) [] P :=
  fun _ => ⟨ha, id, fun _ => (or_iff_left List.not_mem_nil).symm⟩

theorem Lowers.bind {m : Lower α} {f : α → Lower β} (hm : Lowers m xs P)
    (hf : ∀ a, P a → Lowers (f a) ys Q) : Lowers (m >>= f) (xs ++ ys) Q := by
  intro t
  obtain ⟨value, table⟩ := hm t
  obtain ⟨value', table'⟩ := hf _ value (m.run t).2
  exact ⟨value', table.trans table'⟩

/-- The order of the names does not matter. -/
theorem Lowers.same {m : Lower α} (hm : Lowers m xs P) (h : ∀ x, x ∈ xs ↔ x ∈ ys) :
    Lowers m ys P :=
  fun t => ⟨(hm t).1, (hm t).2.nodup, fun x => by rw [(hm t).2.mem, h]⟩

theorem lowers_each {f : α → Lower β} {names : α → List Name} {back : β → α}
    (hf : ∀ a, Lowers (f a) (names a) fun b => back b = a ∧ Q b) (as : List α) :
    Lowers (each f as) (as.flatMap names) fun bs => bs.map back = as ∧ ∀ b ∈ bs, Q b := by
  induction as with
  | nil => exact .pure ⟨rfl, by simp⟩
  | cons a as ih =>
    have all : Lowers (each f (a :: as)) (names a ++ (as.flatMap names ++ []))
        fun bs => bs.map back = a :: as ∧ ∀ b ∈ bs, Q b :=
      (hf a).bind fun b hb => ih.bind fun bs hbs =>
        .pure ⟨by rw [List.map_cons, hb.1, hbs.1], List.forall_mem_cons.mpr ⟨hb.2, hbs.2⟩⟩
    exact all.same (by simp)

end

theorem lowers_symbol (x : Name) : Lowers (symbol x) [x] (· = x) :=
  fun t => ⟨rfl, adds_insert x t⟩

theorem lowers_located (line : Nat) (x : Name) : Lowers (located line x) [x] (· = ⟨line, x⟩) :=
  (lowers_symbol x).bind fun y hy => .pure (by rw [hy])

theorem lowers_ty (t : Ty) : Lowers (ty t) t.names (· = t) := by
  cases t with
  | int | boolean | intArray | booleanArray => exact .pure rfl
  | object name => exact (lowers_symbol name).bind fun y hy => .pure (by rw [hy])

/-- The names in an expression and in what is inside it. -/
def exprNames (e : MiniJava.Expr Unit) : List Name := e.all.flatMap (·.ownNames)

def IsExpr (e : MiniJava.Expr Unit) (q : Lowered.Expr) : Prop := q.bare = e ∧ q.Aligned

def IsForm (line : Nat) (f : ExprForm Unit) (q : Form) : Prop := q.bare = f ∧ q.Aligned line

def AreArgs (es : List (MiniJava.Expr Unit)) (qs : List Lowered.Expr) : Prop :=
  bareArgs qs = es ∧ ArgsAligned qs

mutual

theorem lowers_expr : ∀ e : MiniJava.Expr Unit, Lowers (expr e) (exprNames e) (IsExpr e)
  | .node line _ form =>
    ((lowers_form line form).bind fun q hq =>
      .pure ⟨by rw [Lowered.Expr.bare, hq.1], hq.2⟩).same (by simp [exprNames, Expr.all])

/-- The names of a form are those of the expression that has it. -/
theorem lowers_form (line : Nat) : ∀ form : ExprForm Unit,
    Lowers (exprForm line form) (exprNames (.node line () form)) (IsForm line form)
  | .binary op a b =>
    ((lowers_expr a).bind fun a' ha => (lowers_expr b).bind fun b' hb =>
      .pure ⟨by rw [Form.bare, ha.1, hb.1], ha.2, hb.2⟩).same
        (by simp [exprNames, Expr.all, ExprForm.all, Expr.ownNames, Expr.form])
  | .lookup a i =>
    ((lowers_expr a).bind fun a' ha => (lowers_expr i).bind fun i' hi =>
      .pure ⟨by rw [Form.bare, ha.1, hi.1], ha.2, hi.2⟩).same
        (by simp [exprNames, Expr.all, ExprForm.all, Expr.ownNames, Expr.form])
  | .length a =>
    ((lowers_expr a).bind fun a' ha => .pure ⟨by rw [Form.bare, ha.1], ha.2⟩).same
      (by simp [exprNames, Expr.all, ExprForm.all, Expr.ownNames, Expr.form])
  | .send r m as =>
    ((lowers_expr r).bind fun r' hr => (lowers_located line m).bind fun m' hm =>
      (lowers_args as).bind fun as' has =>
        .pure ⟨by rw [Form.bare, hr.1, has.1, hm], hr.2, by rw [hm], has.2⟩).same
        (by simp [exprNames, Expr.all, ExprForm.all, Expr.ownNames, Expr.form, or_left_comm])
  | .int n => .pure ⟨rfl, trivial⟩
  | .tt => .pure ⟨rfl, trivial⟩
  | .ff => .pure ⟨rfl, trivial⟩
  | .name x => (lowers_symbol x).bind fun y hy => .pure ⟨by rw [Form.bare, hy], trivial⟩
  | .this => .pure ⟨rfl, trivial⟩
  | .newIntArray n =>
    ((lowers_expr n).bind fun n' hn => .pure ⟨by rw [Form.bare, hn.1], hn.2⟩).same
      (by simp [exprNames, Expr.all, ExprForm.all, Expr.ownNames, Expr.form])
  | .newBooleanArray n =>
    ((lowers_expr n).bind fun n' hn => .pure ⟨by rw [Form.bare, hn.1], hn.2⟩).same
      (by simp [exprNames, Expr.all, ExprForm.all, Expr.ownNames, Expr.form])
  | .newObject c =>
    (lowers_located line c).bind fun c' hc => .pure ⟨by rw [Form.bare, hc], by rw [hc]; rfl⟩
  | .not e =>
    ((lowers_expr e).bind fun e' he => .pure ⟨by rw [Form.bare, he.1], he.2⟩).same
      (by simp [exprNames, Expr.all, ExprForm.all, Expr.ownNames, Expr.form])
  | .bracket e =>
    ((lowers_expr e).bind fun e' he => .pure ⟨by rw [Form.bare, he.1], he.2⟩).same
      (by simp [exprNames, Expr.all, ExprForm.all, Expr.ownNames, Expr.form])

theorem lowers_args : ∀ es : List (MiniJava.Expr Unit),
    Lowers (args es) (allArgs es |>.flatMap (·.ownNames)) (AreArgs es)
  | [] => .pure ⟨rfl, trivial⟩
  | e :: es =>
    ((lowers_expr e).bind fun e' he => (lowers_args es).bind fun es' hes =>
      .pure ⟨by rw [bareArgs, he.1, hes.1], he.2, hes.2⟩).same (by simp [exprNames, allArgs])

end

/-- The names in a statement and in what is inside it. -/
def stmtNames (s : MiniJava.Stmt Unit Unit) : List Name := s.items.flatMap (·.names)

def bodyNames (ss : List (MiniJava.Stmt Unit Unit)) : List Name := (bodyItems ss).flatMap (·.names)

theorem names_of_items (e : MiniJava.Expr Unit) :
    (e.items : List (Item Unit Unit)).flatMap (·.names) = exprNames e := by
  rw [Expr.items, List.flatMap_map]
  rfl

theorem names_of_target (x : Located Name) (note : Unit) :
    (Item.target x note : Item Unit Unit).names = [x.value] := rfl

def IsStmt (s : MiniJava.Stmt Unit Unit) (q : Lowered.Stmt) : Prop := q.bare = s ∧ q.Aligned

def IsBody (ss : List (MiniJava.Stmt Unit Unit)) (qs : List Lowered.Stmt) : Prop :=
  bareBody qs = ss ∧ BodyAligned qs

mutual

theorem lowers_stmt : ∀ s : MiniJava.Stmt Unit Unit, Lowers (stmt s) (stmtNames s) (IsStmt s)
  | .block line ss =>
    ((lowers_body ss).bind fun ss' hss =>
      .pure ⟨by rw [Lowered.Stmt.bare, StmtForm.bare, hss.1], hss.2⟩).same
      (by simp [stmtNames, bodyNames, Stmt.items])
  | .assign line x _ e =>
    ((lowers_located line x).bind fun x' hx => (lowers_expr e).bind fun e' he =>
      .pure ⟨by rw [Lowered.Stmt.bare, StmtForm.bare, hx, he.1], by rw [hx], he.2⟩).same
      (by simp [stmtNames, Stmt.items, names_of_items, names_of_target])
  | .arrayAssign line x _ i e =>
    ((lowers_located line x).bind fun x' hx => (lowers_expr i).bind fun i' hi =>
      (lowers_expr e).bind fun e' he =>
        .pure ⟨by rw [Lowered.Stmt.bare, StmtForm.bare, hx, hi.1, he.1], by rw [hx], hi.2,
          he.2⟩).same
      (by simp [stmtNames, Stmt.items, names_of_items, names_of_target])
  | .ifElse line c s t =>
    ((lowers_expr c).bind fun c' hc => (lowers_stmt s).bind fun s' hs =>
      (lowers_stmt t).bind fun t' ht =>
        .pure ⟨by rw [Lowered.Stmt.bare, StmtForm.bare, hc.1, hs.1, ht.1], hc.2, hs.2, ht.2⟩).same
      (by simp [stmtNames, Stmt.items, names_of_items])
  | .while line c s =>
    ((lowers_expr c).bind fun c' hc => (lowers_stmt s).bind fun s' hs =>
      .pure ⟨by rw [Lowered.Stmt.bare, StmtForm.bare, hc.1, hs.1], hc.2, hs.2⟩).same
      (by simp [stmtNames, Stmt.items, names_of_items])
  | .print line e =>
    ((lowers_expr e).bind fun e' he =>
      .pure ⟨by rw [Lowered.Stmt.bare, StmtForm.bare, he.1], he.2⟩).same
      (by simp [stmtNames, Stmt.items, names_of_items])

theorem lowers_body : ∀ ss : List (MiniJava.Stmt Unit Unit),
    Lowers (body ss) (bodyNames ss) (IsBody ss)
  | [] => .pure ⟨rfl, trivial⟩
  | s :: ss =>
    ((lowers_stmt s).bind fun s' hs => (lowers_body ss).bind fun ss' hss =>
      .pure ⟨by rw [bareBody, hs.1, hss.1], hs.2, hss.2⟩).same
      (by simp [stmtNames, bodyNames, bodyItems])

end

theorem lowers_var (v : MiniJava.VarDecl) :
    Lowers (var v) v.names fun q => bareVar q = v ∧ VarAligned q :=
  ((lowers_ty v.ty).bind fun t ht => (lowers_located v.line v.name).bind fun x hx =>
    .pure ⟨by rw [bareVar, ht, hx], rfl, by rw [hx]⟩).same (by simp [VarDecl.names])

theorem lowers_vars (vs : List MiniJava.VarDecl) :
    Lowers (each var vs) (vs.flatMap (·.names)) fun qs =>
      qs.map bareVar = vs ∧ ∀ q ∈ qs, VarAligned q :=
  lowers_each lowers_var vs

theorem lowers_method (m : MiniJava.MethodDecl .bare) :
    Lowers (method m) m.names fun q => bareMethod q = m ∧ MethodAligned q :=
  ((lowers_ty m.returnTy).bind fun t ht => (lowers_located m.line m.name).bind fun x hx =>
    (lowers_vars m.params).bind fun ps hps => (lowers_vars m.vars).bind fun vs hvs =>
      (lowers_body m.body).bind fun ss hss => (lowers_expr m.result).bind fun e he =>
        .pure ⟨by rw [bareMethod, ht, hx, hps.1, hvs.1, hss.1, he.1],
          ⟨rfl, by rw [hx], hps.2, hvs.2, hss.2, he.2⟩⟩).same
    (by simp [MethodDecl.names, MethodDecl.items, bodyNames, names_of_items])

theorem lowers_superclass (line : Nat) (x : Option Name) :
    Lowers (superclass line x) x.toList fun q =>
      q.map (·.value) = x ∧ ∀ s ∈ q, s.line = line := by
  cases x with
  | none => exact .pure ⟨rfl, by simp⟩
  | some x =>
    exact (lowers_located line x).bind fun y hy => .pure ⟨by rw [hy]; rfl, by simp [hy]⟩

theorem lowers_cls (c : MiniJava.ClassDecl .bare) :
    Lowers (cls c) c.names fun q => bareClass q = c ∧ ClassAligned q :=
  ((lowers_located c.line c.name).bind fun x hx =>
    (lowers_superclass c.line c.superclass).bind fun s hs =>
      (lowers_vars c.fields).bind fun fs hfs => (lowers_each lowers_method c.methods).bind
        fun ms hms => .pure ⟨by rw [bareClass, hx, hs.1, hfs.1, hms.1],
          ⟨by rw [hx], hs.2, hfs.2, hms.2⟩⟩).same
    (by simp [ClassDecl.names])

theorem lowers_main (c : MiniJava.MainClass .bare) :
    Lowers (main c) c.names fun q => bareMain q = c ∧ MainAligned q :=
  ((lowers_located c.line c.name).bind fun x hx => (lowers_located c.line c.param).bind
    fun y hy => (lowers_vars c.vars).bind fun vs hvs => (lowers_body c.body).bind fun ss hss =>
      .pure ⟨by rw [bareMain, hx, hy, hvs.1, hss.1],
        ⟨by rw [hx], by rw [hy], hvs.2, hss.2⟩⟩).same
    (by simp [MainClass.names, bodyNames])

theorem lowers_program (p : MiniJava.Program .bare) :
    Lowers (program p) p.names fun q => q.bare = p ∧ q.Aligned :=
  ((lowers_main p.main).bind fun m hm => (lowers_each lowers_cls p.classes).bind fun cs hcs =>
    .pure ⟨by rw [Lowered.Program.bare, hm.1, hcs.1], ⟨hm.2, hcs.2⟩⟩).same
    (by simp [Program.names])

end Lowering

namespace Document

theorem lower_bare (p : Program .bare) : (lower p).1.bare = p :=
  (Lowering.lowers_program p .empty).1.1

theorem lower_aligned (p : Program .bare) : (lower p).1.Aligned :=
  (Lowering.lowers_program p .empty).1.2

/-- The table holds the names of the program, each of them once. -/
theorem lower_names (p : Program .bare) :
    (lower p).2.names.Nodup ∧ ∀ x, x ∈ (lower p).2.names ↔ x ∈ p.names := by
  have adds := (Lowering.lowers_program p .empty).2
  exact ⟨adds.nodup List.nodup_nil, fun x => (adds.mem x).trans (or_iff_right List.not_mem_nil)⟩

theorem lower_size (p : Program .bare) : (lower p).2.size = p.names.dedup.length := by
  obtain ⟨nodup, mem⟩ := lower_names p
  have same : (lower p).2.names.Perm p.names.dedup :=
    (List.perm_ext_iff_of_nodup nodup p.names.nodup_dedup).mpr fun x => by
      rw [mem, List.mem_dedup]
  exact same.length_eq

theorem adds_foldl (xs : List Name) (t : Name.Table) :
    Lowering.Adds xs t (xs.foldl Name.Table.insert t) := by
  induction xs generalizing t with
  | nil => exact ⟨id, by simp⟩
  | cons x xs ih => exact (Lowering.adds_insert x t).trans (ih (t.insert x))

/-- The names of a program, counted without lowering it. -/
theorem nameCount_eq (p : Program .bare) : p.nameCount = (lower p).2.size := by
  have adds := adds_foldl p.names .empty
  have counted : (Name.Table.ofList p.names).names.Perm (lower p).2.names := by
    obtain ⟨nodup, mem⟩ := lower_names p
    refine (List.perm_ext_iff_of_nodup (adds.nodup List.nodup_nil) nodup).mpr fun x => ?_
    exact ((adds.mem x).trans (or_iff_right List.not_mem_nil)).trans (mem x).symm
  exact counted.length_eq

end Document

end MiniJava
