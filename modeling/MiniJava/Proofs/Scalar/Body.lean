import MiniJava.Proofs.Codegen.Total
import MiniJava.Proofs.Scalar.Statement
import MiniJava.Proofs.Typing.Statement

/-!
# Scalar code that was checked

An expression that is scalar, typed and recorded is computed by its code, and a statement is carried
out by its code. Recorded names are locals, since a scalar name is declared in the body itself.
-/
namespace MiniJava.Codegen

open IR
open Check (Scope)
open Typing (Denotes HasType NoteFits ExprRecorded TargetRecorded StmtRecorded BodyRecorded
  StmtTyped BodyTyped Assignable)

/-- The scalar names of a body are locals of the code and have a slot of their own. -/
structure Represents (c : Env) (s : Scope) (vars : List VarDecl) : Prop where
  name : ∀ {x v ty}, scalarName vars x = true → Denotes s x v ty →
    ∃ i l, v = .loc i ∧ c.locals[i]? = some l ∧ l.name = x ∧ l.ty = ty ∧ l.ty.isScalar = true
  distinct : (c.locals.map (·.name)).Nodup

section Body
variable {m : Machine} {c : Env} {s : Scope} {vars : List VarDecl}

mutual

theorem genExpr_computes (once : m.Unambiguous) (rep : Represents c s vars) :
    ∀ (e : Expr Note) {ty : Ty} {r : Option Ref}, e.bare.isScalar vars = true →
      ExprRecorded s e → HasType s e.bare ⟨ty, r⟩ →
        Computes m c (genExpr c e) ty fun σ => e.bare.eval σ
  | .node line note form, ty, r, scalar, recorded, typed => by
    rw [genExpr]
    exact genForm_computes once rep line note form scalar (recorded _ (self_mem_all _))
      (fun x hx => recorded x (List.mem_cons_of_mem _ hx)) typed

theorem genForm_computes (once : m.Unambiguous) (rep : Represents c s vars) (line : Nat)
    (note : Note) :
    ∀ (form : ExprForm Note) {ty : Ty} {r : Option Ref}, form.bare.isScalar vars = true →
      NoteFits s (.node line note form) → (∀ x ∈ form.all, NoteFits s x) →
        HasType s (.node line () form.bare) ⟨ty, r⟩ →
          Computes m c (genForm c line note form) ty fun σ => form.bare.eval σ
  | .binary op a b, ty, r, scalar, _, recorded, typed => by
    obtain ⟨ha, hb⟩ := List.forall_mem_append.mp recorded
    obtain ⟨sa, sb⟩ := Bool.and_eq_true_iff.mp scalar
    obtain ⟨⟨_, ta⟩, ⟨_, tb⟩, hi⟩ := Typing.hasType_binary.mp typed
    obtain rfl : ty = op.resultTy := congrArg ExprInfo.ty hi
    have first := genExpr_computes once rep a sa ha ta
    have second := genExpr_computes once rep b sb hb tb
    rw [genForm]
    by_cases isAnd : op = .and
    · subst isAnd
      exact Computes.and once first second
    · rw [if_neg isAnd]
      have operands : op.operandTy = .int := by
        cases op with
        | and => exact absurd rfl isAnd
        | _ => rfl
      rw [operands] at first second
      exact Computes.arith isAnd first second
  | .not e, ty, r, scalar, _, recorded, typed => by
    obtain ⟨⟨_, te⟩, hi⟩ := Typing.hasType_not.mp typed
    obtain rfl : ty = .boolean := congrArg ExprInfo.ty hi
    rw [genForm]
    exact (genExpr_computes once rep e scalar recorded te).not
  | .int n, ty, r, _, _, _, typed => by
    obtain rfl : ty = .int := congrArg ExprInfo.ty (Typing.hasType_int.mp typed)
    rw [genForm]
    exact Computes.literal (a := .int n) (fun _ => trivial)
      fun s => congrArg (fun b => some (Word.i32 b)) (toBitVec_ofInt_toInt n)
  | .tt, ty, r, _, _, _, typed => by
    obtain rfl : ty = .boolean := congrArg ExprInfo.ty (Typing.hasType_tt.mp typed)
    rw [genForm]
    exact Computes.literal (a := .boolean true) (fun _ => trivial) fun _ => rfl
  | .ff, ty, r, _, _, _, typed => by
    obtain rfl : ty = .boolean := congrArg ExprInfo.ty (Typing.hasType_ff.mp typed)
    rw [genForm]
    exact Computes.literal (a := .boolean false) (fun _ => trivial) fun _ => rfl
  | .name x, ty, r, scalar, noted, _, typed => by
    obtain ⟨v, ty', denotes, hi⟩ := Typing.hasType_name.mp typed
    obtain rfl : ty = ty' := congrArg ExprInfo.ty hi
    obtain rfl : r = some (.var v) := congrArg ExprInfo.ref hi
    obtain ⟨i, l, rfl, hl, rfl, rfl, small⟩ := rep.name scalar denotes
    obtain ⟨info, hinfo, fits⟩ := noted
    obtain rfl := (fits _).mp typed
    obtain rfl : note = some _ := hinfo
    rw [genForm]
    simp only [ofOption_some, of_bind, resolvedVar]
    exact Computes.load hl small
  | .bracket e, ty, r, scalar, _, recorded, typed => by
    rw [genForm]
    exact genExpr_computes once rep e scalar recorded (Typing.hasType_bracket.mp typed)
  | .lookup .., _, _, scalar, _, _, _ => by cases scalar
  | .length _, _, _, scalar, _, _, _ => by cases scalar
  | .send .., _, _, scalar, _, _, _ => by cases scalar
  | .this, _, _, scalar, _, _, _ => by cases scalar
  | .newIntArray _, _, _, scalar, _, _, _ => by cases scalar
  | .newBooleanArray _, _, _, scalar, _, _, _ => by cases scalar
  | .newObject _, _, _, scalar, _, _, _ => by cases scalar

end

theorem eq_of_assignable {t : ClassTable} {ty ty' : Ty} (scalar : ty.isScalar = true)
    (h : Assignable t ty ty') : ty' = ty := by
  cases h with
  | same => rfl
  | widen => cases scalar

mutual

theorem genStmt_implements (once : m.Unambiguous) (rep : Represents c s vars) :
    ∀ st : Stmt Note Target, st.bare.isScalar vars = true → StmtRecorded s st →
      StmtTyped s st.bare → Implements m c (genStmt c st) st.bare.effect
  | .block n body, scalar, recorded, typed => by
    have bare : (Stmt.block n body).bare = .block n (body.map Stmt.bare) :=
      congrArg (Stmt.block n) (mapBody_eq_map _ _ body)
    rw [bare] at scalar typed ⊢
    rw [genStmt]
    exact genStmts_implements once rep body scalar recorded (Typing.stmtTyped_block.mp typed)
  | .assign n x target e, scalar, recorded, typed => by
    obtain ⟨⟨v, ty, rfl, denotes, only⟩, he⟩ := Typing.stmtRecorded_assign.mp recorded
    obtain ⟨known, se⟩ := Bool.and_eq_true_iff.mp scalar
    obtain ⟨w, ty', denotes', info, te, fits⟩ := Typing.stmtTyped_assign.mp typed
    obtain ⟨rfl, rfl⟩ := only w ty' denotes'
    obtain ⟨i, l, rfl, hl, rfl, rfl, small⟩ := rep.name known denotes
    obtain ⟨ty, r⟩ := info
    obtain rfl : ty = l.ty := eq_of_assignable small fits
    rw [genStmt]
    simp only [ofOption_some, of_bind]
    exact Implements.assign rep.distinct hl small (genExpr_computes once rep e se he te)
  | .ifElse n e yes no, scalar, recorded, typed => by
    obtain ⟨he, hyes, hno⟩ := Typing.stmtRecorded_ifElse.mp recorded
    obtain ⟨before, sno⟩ := Bool.and_eq_true_iff.mp scalar
    obtain ⟨se, syes⟩ := Bool.and_eq_true_iff.mp before
    obtain ⟨⟨_, te⟩, tyes, tno⟩ := Typing.stmtTyped_ifElse.mp typed
    rw [genStmt]
    exact Implements.ifElse once (genExpr_computes once rep e se he te)
      (genStmt_implements once rep yes syes hyes tyes) (genStmt_implements once rep no sno hno tno)
  | .while n e body, scalar, recorded, typed => by
    obtain ⟨he, hbody⟩ := Typing.stmtRecorded_while.mp recorded
    obtain ⟨se, sbody⟩ := Bool.and_eq_true_iff.mp scalar
    obtain ⟨⟨_, te⟩, tbody⟩ := Typing.stmtTyped_while.mp typed
    rw [genStmt]
    exact Implements.while once (genExpr_computes once rep e se he te)
      (genStmt_implements once rep body sbody hbody tbody)
  | .print n e, scalar, recorded, typed => by
    obtain ⟨_, te⟩ := Typing.stmtTyped_print.mp typed
    rw [genStmt]
    exact (genExpr_computes once rep e scalar (Typing.stmtRecorded_print.mp recorded) te).print
  | .arrayAssign .., scalar, _, _ => by cases scalar

theorem genStmts_implements (once : m.Unambiguous) (rep : Represents c s vars) :
    ∀ body : List (Stmt Note Target), scalarBody vars (body.map Stmt.bare) = true →
      BodyRecorded s body → BodyTyped s (body.map Stmt.bare) →
        Implements m c (genStmts c body) (bodyEffect (body.map Stmt.bare))
  | [], _, _, _ => by
    rw [genStmts]
    exact Implements.skip
  | st :: body, scalar, recorded, typed => by
    obtain ⟨hst, hbody⟩ := Typing.bodyRecorded_cons.mp recorded
    obtain ⟨sst, sbody⟩ := Bool.and_eq_true_iff.mp scalar
    obtain ⟨tst, tbody⟩ := Typing.bodyTyped_cons.mp typed
    rw [genStmts]
    exact (genStmt_implements once rep st sst hst tst).seq
      (genStmts_implements once rep body sbody hbody tbody)

end

end Body

end MiniJava.Codegen
