import Mathlib.Logic.Function.Basic
import MiniJava.Syntax

/-!
# Scalar programs

The part of the language without objects and arrays, and what it means: expressions have values,
statements print numbers and leave a store behind. Numbers have 32 bits and wrap around; the second
operand of `&&` does not matter when the first one is false.
-/
namespace MiniJava

def Ty.isScalar : Ty → Bool
  | .int | .boolean => true
  | .intArray | .booleanArray | .object _ => false

/-- Declared with a scalar type. -/
def scalarName (vars : List VarDecl) (x : Name) : Bool :=
  vars.any fun v => v.name == x && v.ty.isScalar

mutual

def Expr.isScalar (vars : List VarDecl) : Expr Unit → Bool
  | .node _ _ form => form.isScalar vars

def ExprForm.isScalar (vars : List VarDecl) : ExprForm Unit → Bool
  | .binary _ a b => a.isScalar vars && b.isScalar vars
  | .int _ | .tt | .ff => true
  | .name x => scalarName vars x
  | .not e | .bracket e => e.isScalar vars
  | .lookup .. | .length _ | .send .. | .this | .newIntArray _ | .newBooleanArray _
  | .newObject _ => false

end

mutual

def Stmt.isScalar (vars : List VarDecl) : Stmt Unit Unit → Bool
  | .block _ body => scalarBody vars body
  | .assign _ x _ e => scalarName vars x && e.isScalar vars
  | .arrayAssign .. => false
  | .ifElse _ c yes no => c.isScalar vars && yes.isScalar vars && no.isScalar vars
  | .while _ c body => c.isScalar vars && body.isScalar vars
  | .print _ e => e.isScalar vars

def scalarBody (vars : List VarDecl) : List (Stmt Unit Unit) → Bool
  | [] => true
  | st :: body => st.isScalar vars && scalarBody vars body

end

inductive Scalar where
  | int (value : Int32)
  | boolean (value : Bool)
  deriving DecidableEq

def Scalar.ty : Scalar → Ty
  | .int _ => .int
  | .boolean _ => .boolean

abbrev Store := Name → Scalar

def BinOp.eval : BinOp → Option Scalar → Option Scalar → Option Scalar
  | .and, some (.boolean false), _ => some (.boolean false)
  | .and, some (.boolean true), some (.boolean b) => some (.boolean b)
  | .less, some (.int m), some (.int n) => some (.boolean (m < n))
  | .add, some (.int m), some (.int n) => some (.int (m + n))
  | .sub, some (.int m), some (.int n) => some (.int (m - n))
  | .mul, some (.int m), some (.int n) => some (.int (m * n))
  | _, _, _ => none

def Scalar.not : Scalar → Option Scalar
  | .boolean b => some (.boolean !b)
  | .int _ => none

mutual

/-- The value of an expression, if it has one. -/
def Expr.eval (σ : Store) : Expr Unit → Option Scalar
  | .node _ _ form => form.eval σ

def ExprForm.eval (σ : Store) : ExprForm Unit → Option Scalar
  | .binary op a b => op.eval (a.eval σ) (b.eval σ)
  | .int n => some (.int n)
  | .tt => some (.boolean true)
  | .ff => some (.boolean false)
  | .name x => some (σ x)
  | .not e => (e.eval σ).bind Scalar.not
  | .bracket e => e.eval σ
  | .lookup .. | .length _ | .send .. | .this | .newIntArray _ | .newBooleanArray _
  | .newObject _ => none

end

/-- What is printed and which store is left behind, if a statement ends when it is started in a
store. -/
abbrev Effect := Store → List Int32 → Store → Prop

namespace Effect

inductive skip : Effect
  | rule {σ : Store} : skip σ [] σ

inductive seq (a b : Effect) : Effect
  | rule {σ σ₁ σ' : Store} {out₁ out₂ : List Int32} : a σ out₁ σ₁ → b σ₁ out₂ σ' →
      seq a b σ (out₁ ++ out₂) σ'

inductive assign (x : Name) (e : Store → Option Scalar) : Effect
  | rule {σ : Store} {v : Scalar} : e σ = some v → assign x e σ [] (Function.update σ x v)

inductive choose (cond : Store → Option Scalar) (a b : Effect) : Effect
  | yes {σ σ' : Store} {out : List Int32} : cond σ = some (.boolean true) → a σ out σ' →
      choose cond a b σ out σ'
  | no {σ σ' : Store} {out : List Int32} : cond σ = some (.boolean false) → b σ out σ' →
      choose cond a b σ out σ'

inductive loop (cond : Store → Option Scalar) (body : Effect) : Effect
  | done {σ : Store} : cond σ = some (.boolean false) → loop cond body σ [] σ
  | again {σ σ₁ σ' : Store} {out₁ out₂ : List Int32} : cond σ = some (.boolean true) →
      body σ out₁ σ₁ → loop cond body σ₁ out₂ σ' → loop cond body σ (out₁ ++ out₂) σ'

inductive print (e : Store → Option Scalar) : Effect
  | rule {σ : Store} {n : Int32} : e σ = some (.int n) → print e σ [n] σ

end Effect

mutual

def Stmt.effect : Stmt Unit Unit → Effect
  | .block _ body => bodyEffect body
  | .assign _ x _ e => .assign x fun σ => e.eval σ
  | .arrayAssign .. => fun _ _ _ => False
  | .ifElse _ c yes no => .choose (fun σ => c.eval σ) yes.effect no.effect
  | .while _ c body => .loop (fun σ => c.eval σ) body.effect
  | .print _ e => .print fun σ => e.eval σ

def bodyEffect : List (Stmt Unit Unit) → Effect
  | [] => .skip
  | st :: body => .seq st.effect (bodyEffect body)

end

end MiniJava
