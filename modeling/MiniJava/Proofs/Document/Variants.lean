import MiniJava.Document.Reader

/-!
# Variants of expressions and statements

What the reader makes of an object with the tag of an expression, one equation for each family of
tags, and of the kind of a statement, whose line is read first.
-/

namespace MiniJava.Document
open Json

theorem form?_unary {tag : String} {make : Expr Unit → ExprForm Unit} (h : unary? tag = some make)
    (n : Nat) (e : Json) : form? (n + 1) (.obj [(some tag, e)]) = (expr? n e).map make := by
  unfold unary? at h
  split at h <;> cases h <;> rfl

theorem form?_binary {tag : String} {make : Expr Unit → Expr Unit → ExprForm Unit}
    (h : binary? tag = some make) (n : Nat) (a b : Json) :
    form? (n + 2) (.obj [(some tag, .arr [a, b])]) = do
      let a ← expr? n a
      let b ← expr? n b
      return make a b := by
  unfold binary? at h
  split at h <;> cases h <;> rfl

theorem form?_binary_zero {tag : String} {make : Expr Unit → Expr Unit → ExprForm Unit}
    (h : binary? tag = some make) (content : Json) :
    form? 1 (.obj [(some tag, content)]) = none := by
  unfold binary? at h
  split at h <;> cases h <;> rfl

theorem form?_binary_none {tag : String} {make : Expr Unit → Expr Unit → ExprForm Unit}
    (h : binary? tag = some make) {content : Json} (other : ∀ a b, content ≠ .arr [a, b])
    (n : Nat) : form? (n + 2) (.obj [(some tag, content)]) = none := by
  unfold binary? at h
  match content with
  | .arr [a, b] => exact absurd rfl (other a b)
  | .arr [] | .arr [_] | .arr (_ :: _ :: _ :: _) | .null | .bool _ | .int _ | .real _ | .str _
  | .obj _ => split at h <;> cases h <;> rfl

theorem form?_send (n : Nat) (receiver : Json) (method : String) (args : List Json) :
    form? (n + 3) (.obj [(some "MessageSend", .arr [receiver, .str (some method), .arr args])]) = do
      let receiver ← expr? (n + 1) receiver
      let args ← args.mapM (expr? n)
      return .send receiver method args := rfl

theorem form?_send_none {content : Json}
    (other : ∀ r m args, content ≠ .arr [r, .str (some m), .arr args]) (n : Nat) :
    form? (n + 1) (.obj [(some "MessageSend", content)]) = none := by
  simp only [form?.eq_def, unary?, binary?, if_true]
  grind

theorem form?_leaf {tag : String} (h : tag = "Int" ∨ tag = "Identifier" ∨ tag = "NewObject")
    (n : Nat) (content : Json) : form? (n + 1) (.obj [(some tag, content)]) = leaf? tag content := by
  rcases h with rfl | rfl | rfl <;> rfl

/-- What the reader makes of the kind of a statement at a line. -/
def statement? (n line : Nat) (tag : String) (content : Json) : Option (Stmt Unit Unit) :=
  match n, tag, content with
  | n + 2, "Block", .arr body => do
    let body ← body.mapM (stmt? n)
    return .block line body
  | n + 2, "Assign", .arr [.str (some target), value] => do
    let value ← expr? n value
    return .assign line target () value
  | n + 2, "ArrayAssign", .arr [.str (some target), index, value] => do
    let index ← expr? n index
    let value ← expr? n value
    return .arrayAssign line target () index value
  | n + 2, "If", .arr [cond, yes, no] => do
    let cond ← expr? n cond
    let yes ← stmt? n yes
    let no ← stmt? n no
    return .ifElse line cond yes no
  | n + 2, "While", .arr [cond, body] => do
    let cond ← expr? n cond
    let body ← stmt? n body
    return .while line cond body
  | n + 1, "Print", value => do
    let value ← expr? n value
    return .print line value
  | _, _, _ => none

theorem stmt?_succ (n : Nat) (v : Json) : stmt? (n + 1) v =
    match record? ["line", "kind"] v with
    | some [line, some (.obj [(some tag, content)])] =>
      (line? line).bind fun line => statement? n line tag content
    | _ => none := by
  rw [stmt?]
  rfl

end MiniJava.Document
