import MiniJava.Proofs.Codegen.Accesses
import MiniJava.Proofs.Codegen.Structured

/-!
# Fields and headers in the code of methods

In the code of a body that was checked, every load and store through a pointer into the object
touches the header as a whole, or one of the fields that names of the body denote, at its place and
at its type.
-/
namespace MiniJava

namespace Codegen

open IR
open Check (Scope)
open Typing (Denotes HasType NoteFits ExprRecorded StmtRecorded BodyRecorded)

/-- A body sets its temporaries once, and what its names denote may be touched. -/
structure Guarded (c : Env) (s : Scope) (body : List Line) (allowed : IRType → Int → Prop) :
    Prop where
  once : (temporaries body).Nodup
  header : allowed (.ptr .bytes) 0
  fields : ∀ {x r ty}, Denotes s x (.field r) ty → VarAllowed c allowed (.field r)

section Body
variable {c : Env} {s : Scope} {body : List Line} {allowed : IRType → Int → Prop}

theorem Guarded.var (h : Guarded c s body allowed) {x : Name} {v : VarRef} {ty : Ty}
    (hv : Denotes s x v ty) : VarAllowed c allowed v := by
  cases v with
  | loc i => trivial
  | field r => exact h.fields hv

/-- What is recorded is typed. -/
theorem exists_hasType {e : Expr Note} (recorded : ExprRecorded s e) :
    ∃ i, HasType s e.bare i := by
  obtain ⟨i, _, derives⟩ := recorded e (self_mem_all e)
  exact ⟨i, (derives i).mpr rfl⟩

section Resolved
variable (e : CodegenError) (info : ExprInfo)

theorem resolvedMethod_stays : Stays body allowed (resolvedMethod e info) fun _ => True := by
  rw [resolvedMethod]
  split
  · exact .of trivial
  · exact .fail e

theorem resolvedClass_stays : Stays body allowed (resolvedClass e info) fun _ => True := by
  rw [resolvedClass]
  split
  · exact .of trivial
  · exact .fail e

end Resolved

theorem arithOf_stays (once : (temporaries body).Nodup) (op : BinOp) (v w : Value) :
    Stays body allowed (emitValue (arithOf op v w)) (Elsewhere body) := by
  cases op with
  | less => exact .compare once
  | and => exact .arith once
  | add => exact .arith once
  | sub => exact .arith once
  | mul => exact .arith once

theorem Stays.plain {x : Gen Value} {ty : Ty} (h : Stays body allowed x (Elsewhere body)) :
    Stays body allowed x (Plain body ty) := h.imp fun _ => Or.inr

theorem ne_object_of_element {array element : Ty} (h : array.element? = some element) :
    ∀ cls, array ≠ .object cls := by
  rintro cls rfl
  cases h

mutual

theorem genExpr_stays (h : Guarded c s body allowed) :
    ∀ (e : Expr Note) {i : ExprInfo}, ExprRecorded s e → HasType s e.bare i →
      Stays body allowed (genExpr c e) (Plain body i.ty)
  | .node line note form, i, recorded, typed => by
    obtain ⟨j, hj, fits⟩ := recorded _ (self_mem_all _)
    obtain rfl := (fits i).mp typed
    obtain rfl : note = some i := hj
    rw [genExpr]
    exact genForm_stays h line form (fun x hx => recorded x (List.mem_cons_of_mem _ hx)) typed

theorem genForm_stays (h : Guarded c s body allowed) (line : Nat) :
    ∀ (form : ExprForm Note) {i : ExprInfo}, (∀ x ∈ form.all, NoteFits s x) →
      HasType s (.node line () form.bare) i →
        Stays body allowed (genForm c line (some i) form) (Plain body i.ty)
  | .binary op a b, i, recorded, typed => by
    obtain ⟨ha, hb⟩ := List.forall_mem_append.mp recorded
    obtain ⟨⟨_, ta⟩, ⟨_, tb⟩, rfl⟩ := Typing.hasType_binary.mp typed
    have first := genExpr_stays h a ha ta
    have second := genExpr_stays h b hb tb
    have operand : ∀ cls, op.operandTy ≠ .object cls := by
      cases op <;> nofun
    rw [genForm]
    refine .ite (genAnd_stays h.once ?_ ?_).plain ?_
    · exact first.imp fun _ hv => hv.elsewhere operand
    · exact second.imp fun _ hv => hv.elsewhere operand
    · exact first.bind fun v _ => second.bind fun w _ => (arithOf_stays h.once op v w).plain
  | .not e, i, recorded, typed => by
    obtain ⟨⟨_, te⟩, rfl⟩ := Typing.hasType_not.mp typed
    rw [genForm]
    exact (genExpr_stays h e recorded te).bind fun _ _ => (Stays.arith h.once).plain
  | .lookup a e, i, recorded, typed => by
    obtain ⟨ha, he⟩ := List.forall_mem_append.mp recorded
    obtain ⟨array, _, element, ta, helement, ⟨_, te⟩, rfl⟩ := Typing.hasType_lookup.mp typed
    rw [genForm, infoOf_eq ha ta, of_bind]
    refine (genExpr_stays h a ha ta).bind fun v hv => ?_
    have hv := hv.elsewhere (ne_object_of_element helement)
    refine (genExpr_stays h e he te).bind fun w _ => ?_
    exact (elementPointer_stays h.once _ hv w).bind fun p hp =>
      (loadElement_stays h.once _ hp).plain
  | .length a, i, recorded, typed => by
    obtain ⟨array, _, element, ta, helement, rfl⟩ := Typing.hasType_length.mp typed
    rw [genForm, infoOf_eq recorded ta, of_bind]
    refine (genExpr_stays h a recorded ta).bind fun v hv => ?_
    exact (arrayLength_stays h.once _ (hv.elsewhere (ne_object_of_element helement))).plain
  | .send r m args, i, recorded, typed => by
    obtain ⟨hr, hargs⟩ := List.forall_mem_append.mp recorded
    obtain ⟨j, tr⟩ := exists_hasType hr
    rw [genForm]
    simp only [ofOption_some, of_bind]
    refine (resolvedMethod_stays _ _).bind fun ref _ => (Stays.ofOption _ _).bind fun k _ => ?_
    refine (Stays.ofOption _ _).bind fun slot _ => (genExpr_stays h r hr tr).bind fun v hv => ?_
    refine (genArgs_stays h args hargs _).bind fun vs _ => ?_
    exact (invoke_stays h.once h.header k slot hv vs).plain
  | .int n, i, _, _ => by
    rw [genForm]
    exact .of (Or.inr (elsewhere_of_ne nofun nofun))
  | .tt, i, _, _ => by
    rw [genForm]
    exact .of (Or.inr (elsewhere_of_ne nofun nofun))
  | .ff, i, _, _ => by
    rw [genForm]
    exact .of (Or.inr (elsewhere_of_ne nofun nofun))
  | .name x, i, _, typed => by
    obtain ⟨v, ty, denotes, rfl⟩ := Typing.hasType_name.mp typed
    rw [genForm]
    simp only [ofOption_some, of_bind, resolvedVar]
    exact (loadVar_stays h.once c (h.var denotes)).plain
  | .this, i, _, typed => by
    obtain ⟨_, rfl⟩ := Typing.hasType_this.mp typed
    rw [genForm]
    exact .of (Or.inl ⟨rfl, _, rfl⟩)
  | .newIntArray n, i, recorded, typed => by
    obtain ⟨⟨_, tn⟩, rfl⟩ := Typing.hasType_newIntArray.mp typed
    rw [genForm]
    exact (genExpr_stays h n recorded tn).bind fun v _ => (newArray_stays h.once _ v).plain
  | .newBooleanArray n, i, recorded, typed => by
    obtain ⟨⟨_, tn⟩, rfl⟩ := Typing.hasType_newBooleanArray.mp typed
    rw [genForm]
    exact (genExpr_stays h n recorded tn).bind fun v _ => (newArray_stays h.once _ v).plain
  | .newObject name, i, _, _ => by
    rw [genForm]
    simp only [ofOption_some, of_bind]
    exact (resolvedClass_stays _ _).bind fun id _ => (Stays.ofOption _ _).bind fun l _ =>
      (newObject_stays h.once l).plain
  | .bracket e, i, recorded, typed => by
    rw [genForm]
    exact genExpr_stays h e recorded (Typing.hasType_bracket.mp typed)

theorem genArgs_stays (h : Guarded c s body allowed) :
    ∀ (es : List (Expr Note)), (∀ x ∈ allArgs es, NoteFits s x) → ∀ tys : List Ty,
      Stays body allowed (genArgs c tys es) fun _ => True
  | [], _, tys => by
    rw [genArgs]
    exact .of trivial
  | e :: es, recorded, [] => by
    rw [genArgs]
    exact .of trivial
  | e :: es, recorded, ty :: tys => by
    obtain ⟨he, hes⟩ := List.forall_mem_append.mp recorded
    obtain ⟨i, te⟩ := exists_hasType he
    rw [genArgs]
    exact (genExpr_stays h e he te).bind fun _ _ => (genArgs_stays h es hes tys).bind fun _ _ =>
      .of trivial

end

theorem operand_stays (h : Guarded c s body allowed) {e : Expr Note}
    (recorded : ExprRecorded s e) :
    Stays body allowed (genExpr c e) fun _ => True := by
  obtain ⟨i, typed⟩ := exists_hasType recorded
  exact (genExpr_stays h e recorded typed).imp fun _ _ => trivial

mutual

theorem genStmt_stays (h : Guarded c s body allowed) :
    ∀ st : Stmt Note Target, StmtRecorded s st →
      Stays body allowed (genStmt c st) fun _ => True
  | .block n stmts, recorded => by
    rw [genStmt]
    exact genStmts_stays h stmts recorded
  | .assign n x target e, recorded => by
    obtain ⟨⟨v, ty, rfl, denotes, _⟩, he⟩ := Typing.stmtRecorded_assign.mp recorded
    rw [genStmt]
    refine (operand_stays h he).bind fun value _ => ?_
    rw [ofOption_some, of_bind]
    exact storeVar_stays h.once c (h.var denotes) value
  | .arrayAssign n x target i e, recorded => by
    obtain ⟨⟨v, ty, rfl, denotes, _⟩, hi, he⟩ := Typing.stmtRecorded_arrayAssign.mp recorded
    rw [genStmt, ofOption_some, of_bind]
    refine (varTy_stays c v).bind fun ty _ => ?_
    refine (loadVar_stays h.once c (h.var denotes)).bind fun array harray => ?_
    refine (operand_stays h hi).bind fun index _ => (operand_stays h he).bind fun value _ => ?_
    exact (elementPointer_stays h.once ty harray index).bind fun p hp =>
      storeElement_stays ty hp value
  | .ifElse n e yes no, recorded => by
    obtain ⟨he, hyes, hno⟩ := Typing.stmtRecorded_ifElse.mp recorded
    rw [genStmt]
    exact genIf_stays (operand_stays h he) (genStmt_stays h yes hyes) (genStmt_stays h no hno)
  | .while n e run, recorded => by
    obtain ⟨he, hrun⟩ := Typing.stmtRecorded_while.mp recorded
    rw [genStmt]
    exact genWhile_stays (operand_stays h he) (genStmt_stays h run hrun)
  | .print n e, recorded => by
    rw [genStmt]
    exact (operand_stays h (Typing.stmtRecorded_print.mp recorded)).bind fun _ _ =>
      .emit (respects_of_quiet rfl)

theorem genStmts_stays (h : Guarded c s body allowed) :
    ∀ stmts : List (Stmt Note Target), BodyRecorded s stmts →
      Stays body allowed (genStmts c stmts) fun _ => True
  | [], _ => by
    rw [genStmts]
    exact .of trivial
  | st :: stmts, recorded => by
    obtain ⟨hst, hstmts⟩ := Typing.bodyRecorded_cons.mp recorded
    rw [genStmts]
    exact (genStmt_stays h st hst).bind fun _ _ => genStmts_stays h stmts hstmts

end

theorem genSlots_stays (params : List Local) :
    Stays body allowed (genSlots c params) fun _ => True := by
  have slots : ∀ xs : List Local, Stays body allowed (allocate c xs) fun _ => True := by
    intro xs
    induction xs with
    | nil => exact .of trivial
    | cons x xs ih => exact (Stays.emit (respects_of_quiet rfl)).bind fun _ _ => ih
  have stores : ∀ xs : List Local, Stays body allowed (storeParams c xs) fun _ => True := by
    intro xs
    induction xs with
    | nil => exact .of trivial
    | cons x xs ih =>
      exact (Stays.store (admits_of_elsewhere (elsewhere_slot c x) _)).bind fun _ _ => ih
  exact (Stays.startBlock _).bind fun _ _ => (slots _).bind fun _ _ => stores params

theorem methodBody_stays (h : Guarded c s body allowed) (m : Method) {d : MethodDecl .checked}
    (recorded : ∀ x ∈ d.items, Typing.ItemRecorded s x) :
    Stays body allowed (methodBody c m d.body d.result) fun _ => True := by
  obtain ⟨stmts, result⟩ := List.forall_mem_append.mp recorded
  refine (genSlots_stays m.params).bind fun _ _ => ?_
  refine (genStmts_stays h d.body stmts).bind fun _ _ => ?_
  exact (operand_stays h (Typing.exprRecorded_iff.mp result)).bind fun _ _ =>
    .emit (respects_of_quiet rfl)

end Body

/-- No temporary is set twice in a function. -/
theorem Source.Checked.once {s : Source} {sc : Scope} (h : s.Checked sc)
    (classes : (s.env.layout.map (·.name)).Nodup) (n : LabelCounters) :
    (temporaries (s.function n).body).Nodup := by
  obtain ⟨_, _, returning⟩ := h.returning
  obtain ⟨_, _, _, function, structured⟩ := returning.structured h.frame classes n
  rw [function, structured.numbered]
  exact List.nodup_range

/-- The body of a method that code is generated from. -/
inductive MethodSource (t : ClassTable) (l : Layout) (p : Program .checked) (r : MethodRef) :
    Source → Prop
  | intro {d : ClassDecl .checked} {k : MethodDecl .checked} {id : ClassId} {m : Method} :
      d ∈ p.classes → d.note = some id → k ∈ d.methods → k.note = some r → t.method? r = some m →
      MethodSource t l p r (.ofMethod t l (t.nameOf id) m k)

/-- Code is generated from the body of `main` and from those of methods. -/
theorem hasSource_iff {t : ClassTable} {l : Layout} {p : Program .checked} {s : Source} :
    HasSource t l p s ↔ s = .ofMain t l p ∨ ∃ r, MethodSource t l p r s := by
  constructor
  · intro h
    cases h with
    | main => exact Or.inl rfl
    | method hd note hk hr hm => exact Or.inr ⟨_, .intro hd note hk hr hm⟩
  · rintro (rfl | ⟨r, hd, note, hk, hr, hm⟩)
    · exact .main
    · exact .method hd note hk hr hm

/-- A part of an object that methods of the class touch as a whole: the header, or a field that the
class sees. -/
inductive Part (t : ClassTable) (a : ClassId) : IRType → Int → Prop
  | header : Part t a (.ptr .bytes) 0
  | field {f : Field} {start : Nat} : f ∈ t.visibleFields a → f.start? = some start →
      Part t a f.ty.ir start

end Codegen

open IR Codegen Check

section Accepted
variable {p : Program .bare} {c : Checked} {t u : ClassTable} {layout : Layout}
  (known : Accepted p c t) (h : Layout.Prepared t u layout)

include h in
/-- The class of a method sees the fields that names in the method denote. -/
theorem Layout.Prepared.visible {r : MethodRef} {x : Name} {q : FieldRef} {ty : Ty}
    (hq : Typing.Denotes (Typing.methodScope t r) x (.field q) ty) {f : Field}
    (hf : u.field? q = some f) : f ∈ u.visibleFields r.cls := by
  cases hq with
  | field _ _ sees _ =>
    have found := (Typing.seesField_iff h.wellFormed.forest).mp sees
    refine List.mem_flatMap.mpr ⟨q.cls, ?_, List.mem_of_getElem? hf⟩
    rw [h.same.outline.chain]
    exact (ClassTable.findField?_eq_some found).1

include h in
/-- In the code of a method the fields that its class sees may be touched. -/
theorem Layout.Prepared.guarded {r : MethodRef} {s : Source}
    (checked : s.Checked (Typing.methodScope t r)) (table : s.env.table = u)
    (layouts : s.env.layout = layout) (n : LabelCounters) :
    Guarded s.env (Typing.methodScope t r) (s.function n).body (Part u r.cls) := by
  refine ⟨checked.once (layouts ▸ h.names_nodup) n, .header, fun hq f start hf hstart => ?_⟩
  rw [table] at hf
  exact .field (h.visible hq hf) hstart

include known h

/-- The code of a method touches only the header and the fields that the class of the method
sees. -/
theorem Check.Accepted.accesses {r : MethodRef} {s : Source}
    (hs : MethodSource u layout c.program r s) (n : LabelCounters) {ty : IRType} {o : Int}
    (access : Accesses (s.function n).body ty o) : Part u r.cls ty o := by
  cases hs with
  | @intro d k id m hd note hk hr hm =>
    have checked := known.method_checked h hd hk hr hm (u.nameOf id)
    obtain ⟨i, ptr, hi, hptr, points⟩ := access
    have stays := methodBody_stays (h.guarded checked rfl rfl n) m checked.recorded
    exact (stays { labels := n } (List.Subset.refl _)).1 i hi ty ptr hptr o points

end Accepted

end MiniJava
