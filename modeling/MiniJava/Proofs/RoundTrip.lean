import MiniJava.Proofs.Document.Lowered
import MiniJava.Proofs.Document.Reread
import MiniJava.Proofs.Json.Printed

/-!
# Loading undoes writing

A program that is written and loaded is the same program, with the lines and the table of names that
belong to it; and what was read from any text can be written and read again.
-/

namespace MiniJava.Document
open Json

theorem membersExact_append {ms ms' : List (Option String × Json)} (h : MembersExact ms)
    (h' : MembersExact ms') : MembersExact (ms ++ ms') := by
  induction ms with
  | nil => exact h'
  | cons m ms ih => exact ⟨h.1, ih h.2⟩

theorem itemsExact_map {α : Type} {item : α → Json} {xs : List α} (h : ∀ x ∈ xs, (item x).Exact) :
    ItemsExact (xs.map item) := by
  induction xs with
  | nil => trivial
  | cons x xs ih =>
    obtain ⟨hx, hxs⟩ := List.forall_mem_cons.mp h
    exact ⟨hx, ih hxs⟩

theorem membersExact_ofList {α : Type} {item : α → Json} {xs : List α} (name : String)
    (h : ∀ x, (item x).Exact) : MembersExact (ofList name item xs) := by
  cases xs with
  | nil => trivial
  | cons x xs => exact ⟨itemsExact_map fun y _ => h y, trivial⟩

theorem exact_ofTy (t : Ty) : (ofTy t).Exact := by
  cases t <;> simp [ofTy, ofText, variant, key, Exact, MembersExact]

mutual

theorem exact_ofExpr : ∀ e : Expr Unit, (ofExpr e).Exact
  | .node _ _ f => ⟨trivial, exact_ofForm f, trivial⟩

theorem exact_ofForm : ∀ f : ExprForm Unit, (ofForm f).Exact
  | .binary _ a b => ⟨⟨exact_ofExpr a, exact_ofExpr b, trivial⟩, trivial⟩
  | .lookup a i => ⟨⟨exact_ofExpr a, exact_ofExpr i, trivial⟩, trivial⟩
  | .send r _ args => ⟨⟨exact_ofExpr r, trivial, exact_ofArgs args, trivial⟩, trivial⟩
  | .length e | .newIntArray e | .newBooleanArray e | .not e | .bracket e =>
    ⟨exact_ofExpr e, trivial⟩
  | .int _ | .name _ | .newObject _ => ⟨trivial, trivial⟩
  | .tt | .ff | .this => trivial

theorem exact_ofArgs : ∀ es : List (Expr Unit), ItemsExact (ofArgs es)
  | [] => trivial
  | e :: es => ⟨exact_ofExpr e, exact_ofArgs es⟩

end

mutual

theorem exact_ofStmt : ∀ s : Stmt Unit Unit, (ofStmt s).Exact
  | .block _ body => ⟨trivial, ⟨exact_ofBody body, trivial⟩, trivial⟩
  | .assign _ _ _ e => ⟨trivial, ⟨⟨trivial, exact_ofExpr e, trivial⟩, trivial⟩, trivial⟩
  | .arrayAssign _ _ _ i e =>
    ⟨trivial, ⟨⟨trivial, exact_ofExpr i, exact_ofExpr e, trivial⟩, trivial⟩, trivial⟩
  | .ifElse _ c s t =>
    ⟨trivial, ⟨⟨exact_ofExpr c, exact_ofStmt s, exact_ofStmt t, trivial⟩, trivial⟩, trivial⟩
  | .while _ c s => ⟨trivial, ⟨⟨exact_ofExpr c, exact_ofStmt s, trivial⟩, trivial⟩, trivial⟩
  | .print _ e => ⟨trivial, ⟨exact_ofExpr e, trivial⟩, trivial⟩

theorem exact_ofBody : ∀ ss : List (Stmt Unit Unit), ItemsExact (ofBody ss)
  | [] => trivial
  | s :: ss => ⟨exact_ofStmt s, exact_ofBody ss⟩

end

theorem exact_ofVar (v : VarDecl) : (ofVar v).Exact := ⟨trivial, exact_ofTy v.ty, trivial, trivial⟩

theorem exact_ofMethod (m : MethodDecl .bare) : (ofMethod m).Exact :=
  have front : MembersExact [key "line" (ofNat m.line), key "return_ty" (ofTy m.returnTy),
      key "name" (ofText m.name)] := ⟨trivial, exact_ofTy m.returnTy, trivial, trivial⟩
  have params := membersExact_append front (membersExact_ofList "params" exact_ofVar)
  have vars := membersExact_append params (membersExact_ofList "vars" exact_ofVar)
  have body := membersExact_append vars (membersExact_ofList "statements" exact_ofStmt)
  membersExact_append body ⟨exact_ofExpr m.result, trivial⟩

theorem exact_ofClass (c : ClassDecl .bare) : (ofClass c).Exact :=
  have front : MembersExact [key "line" (ofNat c.line), key "name" (ofText c.name)] :=
    ⟨trivial, trivial, trivial⟩
  have superclass : MembersExact (ofSuperclass c.superclass) := by
    cases c.superclass <;> simp [ofSuperclass, key, ofText, MembersExact, Exact]
  have fields := membersExact_append (membersExact_append front superclass)
    (membersExact_ofList "fields" exact_ofVar)
  membersExact_append fields (membersExact_ofList "methods" exact_ofMethod)

theorem exact_ofMain (c : MainClass .bare) : (ofMain c).Exact :=
  have front : MembersExact [key "line" (ofNat c.line), key "name" (ofText c.name),
      key "param_name" (ofText c.param)] := ⟨trivial, trivial, trivial, trivial⟩
  have vars := membersExact_append front (membersExact_ofList "vars" exact_ofVar)
  membersExact_append vars (membersExact_ofList "statements" exact_ofStmt)

theorem exact_toJson (p : Program .bare) : (toJson p).Exact :=
  ⟨exact_ofMain p.main, membersExact_ofList "classes" exact_ofClass⟩

theorem read?_write {p : Program .bare} : read? (write p) = program? depth (toJson p) := by
  rw [read?, write, text, String.toList_ofList, parse?_print (exact_toJson p)]
  rfl

/-- What lowering has made of a program. -/
structure Loaded (p : Program .bare) (q : Lowered.Program) (names : Name.Table) : Prop where
  /-- The tree is the same: constructors, order of operands, literals, names and lines. -/
  tree : q.bare = p
  /-- Every name and type has the line of its node. -/
  aligned : q.Aligned
  /-- There is a symbol for each name. -/
  symbols : ∀ x, x ∈ names.names ↔ x ∈ p.names
  /-- There are as many symbols as there are different names. -/
  count : names.size = p.names.dedup.length

theorem loaded_lower (p : Program .bare) : Loaded p (lower p).1 (lower p).2 :=
  ⟨lower_bare p, lower_aligned p, (lower_names p).2, lower_size p⟩

/-- A program whose lines fit and whose encoding stays within the levels is loaded from its encoding
as it is; and the encoding of what any text describes describes the same. -/
theorem loading_undoes_writing :
    (∀ p : Program .bare, LinesFit p.lines → (toJson p).levels ≤ depth →
      read? (write p) = some p ∧ Loaded p (lower p).1 (lower p).2) ∧
    ∀ text p, read? text = some p → read? (write p) = some p := by
  refine ⟨fun p lines levels => ⟨?_, loaded_lower p⟩, fun text p h => ?_⟩
  · rw [read?_write, program?_of_levels levels lines]
  · obtain ⟨v, -, hv⟩ := Option.bind_eq_some_iff.mp h
    rw [read?_write]
    exact program?_reread hv

/-- A program whose names need escapes, with a line and a literal at the end of their ranges. -/
def escapedProgram : Program .bare where
  main := ⟨18446744073709551615, "M\"", "a\n", [⟨2, .object "é", "x"⟩],
    [.assign 3 "x" () (.node 3 () (.binary .sub (.node 3 () (.int (-2147483648)))
      (.node 4 () (.send (.node 4 () (.newObject "é")) "f" [.node 4 () .this]))))]⟩
  classes := [⟨5, (), "é", none, [], []⟩]

theorem loading_undoes_writing_escaped :
    read? (write escapedProgram) = some escapedProgram ∧
      Loaded escapedProgram (lower escapedProgram).1 (lower escapedProgram).2 ∧
      read? "[[7,\"M\",\"a\"]]" = some ⟨⟨7, "M", "a", [], []⟩, []⟩ ∧
      read? (write ⟨⟨7, "M", "a", [], []⟩, []⟩) = some ⟨⟨7, "M", "a", [], []⟩, []⟩ := by
  have lines : LinesFit escapedProgram.lines := by unfold LinesFit; decide
  have levels : (toJson escapedProgram).levels ≤ depth := by decide
  obtain ⟨back, loaded⟩ := loading_undoes_writing.1 escapedProgram lines levels
  have positional : read? "[[7,\"M\",\"a\"]]" = some ⟨⟨7, "M", "a", [], []⟩, []⟩ := by rfl
  exact ⟨back, loaded, positional, loading_undoes_writing.2 _ _ positional⟩

end MiniJava.Document
