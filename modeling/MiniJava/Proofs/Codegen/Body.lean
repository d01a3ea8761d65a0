import MiniJava.Proofs.Codegen.Checked
import MiniJava.Proofs.Codegen.Region

/-!
# Bodies that were checked

An expression that is typed and recorded becomes a region that leaves an operand of the type that
represents the type of the expression; a class and its ancestors are represented alike. A statement
becomes a region.
-/
namespace MiniJava.Codegen

open IR
open Check (Scope)
open Typing (Denotes HasType NoteFits ExprRecorded StmtRecorded BodyRecorded StmtTyped BodyTyped
  ArgsFit Assignable)

/-- What the code of a body needs, and the names that are known in it. -/
structure Provides (c : Env) (s : Scope) (names : Names) : Prop where
  serves : Serves c s
  localTys : c.locals.map (·.ty) = s.locals.map (·.ty)
  globals : globals c.layout ⊆ names
  slots : ∀ x ∈ c.locals, (c.slot x, .ptr x.ty.ir) ∈ names
  method : s.place.method.isSome = true → (.this, .bytes) ∈ names
  field : ∀ {x r ty}, Denotes s x (.field r) ty → (.this, .bytes) ∈ names

theorem ir_eq_of_assignable {t : ClassTable} {a b : Ty} (h : Assignable t a b) : b.ir = a.ir := by
  cases h with
  | same => rfl
  | widen => rfl

section Body
variable {c : Env} {s : Scope} {names known : Names}

theorem Provides.varTy (h : Provides c s names) {x : Name} {v : VarRef} {ty : Ty}
    (hv : Denotes s x v ty) : varTy c v = Gen.of ty := by
  cases hv with
  | @loc i l _ hl =>
    have same := congrArg (·[i]?) h.localTys
    simp only [List.getElem?_map, hl, Option.map_some] at same
    rw [Codegen.varTy, same]
    rfl
  | field _ _ _ hf =>
    obtain ⟨f, hf, outline⟩ := h.serves.same.symm.outline.exists_field? hf
    have same := congrArg Field.ty outline
    simp only [Field.outline] at same
    rw [Codegen.varTy, hf, Option.map_some, same]
    rfl

theorem varPointer_yields (h : Provides c s names) (sub : names ⊆ known) {x : Name} {v : VarRef}
    {ty : Ty} (hv : Denotes s x v ty) : Yields known (varPointer c v) (.ptr ty.ir) := by
  have field := @h.field
  cases hv with
  | @loc i l _ hl =>
    have same := congrArg (·[i]?) h.localTys
    simp only [List.getElem?_map, hl, Option.map_some] at same
    obtain ⟨l', hl', hty⟩ := Option.map_eq_some_iff.mp same
    rw [varPointer, hl', ← hty]
    exact .of (.named (sub (h.slots l' (List.mem_of_getElem? hl'))))
  | field hx hp hr hf =>
    have this := sub (field (.field hx hp hr hf))
    obtain ⟨f, hf, outline⟩ := h.serves.same.symm.outline.exists_field? hf
    have same := congrArg Field.ty outline
    simp only [Field.outline] at same
    obtain ⟨offset, hoffset⟩ := Option.isSome_iff_exists.mp (h.serves.offsets _ f hf)
    rw [varPointer, hf, ofOption_some, of_bind, hoffset, ofOption_some, of_bind, ← same]
    exact Yields.bind (.element (.named this) (.int _)) fun address known₁ sub₁ haddress =>
      Yields.bitcast haddress

theorem loadVar_yields (h : Provides c s names) (sub : names ⊆ known) {x : Name} {v : VarRef}
    {ty : Ty} (hv : Denotes s x v ty) : Yields known (loadVar c v) ty.ir := by
  rw [loadVar, h.varTy hv, of_bind]
  exact Yields.bind (varPointer_yields h sub hv) fun pointer known₁ sub₁ hpointer =>
    Yields.load hpointer (Ty.ir_ne_void ty)

theorem storeVar_runs (h : Provides c s names) (sub : names ⊆ known) {x : Name} {v : VarRef}
    {ty : Ty} (hv : Denotes s x v ty) {value : Value} (typed : value.HasType known ty.ir) :
    Runs known (storeVar c v value) := by
  rw [storeVar, h.varTy hv, of_bind]
  exact Gives.bind (varPointer_yields h sub hv) fun pointer known₁ sub₁ hpointer =>
    Runs.store (typed.mono sub₁) hpointer

theorem Provides.returnTy (h : Provides c s names) {r : MethodRef} {m k : Method}
    (hm : c.table.method? r = some m) (hk : s.table.method? r = some k) :
    m.returnTy = k.returnTy := by
  obtain ⟨k', hk', declared⟩ := h.serves.same.exists_method? hm
  obtain rfl := Option.some.inj (hk.symm.trans hk')
  have same := congrArg Method.returnTy declared
  exact same.symm

/-- Messages are sent to objects. -/
theorem receiver_ir {ty : Ty} {m : Name} {r : MethodRef} (calls : Typing.Calls s ty m r) :
    ty.ir = .bytes := by
  obtain ⟨cls, _, hcls, _⟩ := calls
  cases ty with
  | object name => rfl
  | _ => cases hcls

theorem infoOf_eq {e : Expr Note} {i : ExprInfo} (recorded : ExprRecorded s e)
    (typed : HasType s e.bare i) : infoOf e = Gen.of i := by
  obtain ⟨j, hj, fits⟩ := recorded e (self_mem_all e)
  obtain rfl := (fits i).mp typed
  rw [infoOf, hj]
  rfl

mutual

theorem genExpr_yields (h : Provides c s names) :
    ∀ (e : Expr Note) {i : ExprInfo} {known : Names}, names ⊆ known → ExprRecorded s e →
      HasType s e.bare i → Yields known (genExpr c e) i.ty.ir
  | .node line note form, i, known, sub, recorded, typed => by
    obtain ⟨j, hj, fits⟩ := recorded _ (self_mem_all _)
    obtain rfl := (fits i).mp typed
    obtain rfl : note = some i := hj
    rw [genExpr]
    exact genForm_yields h line form sub (fun x hx => recorded x (List.mem_cons_of_mem _ hx)) typed

theorem genForm_yields (h : Provides c s names) (line : Nat) :
    ∀ (form : ExprForm Note) {i : ExprInfo} {known : Names}, names ⊆ known →
      (∀ x ∈ form.all, NoteFits s x) → HasType s (.node line () form.bare) i →
        Yields known (genForm c line (some i) form) i.ty.ir
  | .binary op a b, i, known, sub, recorded, typed => by
    obtain ⟨ha, hb⟩ := List.forall_mem_append.mp recorded
    obtain ⟨⟨_, ta⟩, ⟨_, tb⟩, rfl⟩ := Typing.hasType_binary.mp typed
    rw [genForm]
    refine Gives.ite (fun isAnd => ?_) fun other => ?_
    · subst isAnd
      exact Yields.and (genExpr_yields h a sub ha ta) fun known₁ sub₁ =>
        genExpr_yields h b (List.Subset.trans sub sub₁) hb tb
    · have operands : op.operandTy = .int := by
        cases op with
        | and => exact absurd rfl other
        | _ => rfl
      rw [operands] at ta tb
      exact Yields.bind (genExpr_yields h a sub ha ta) fun v known₁ sub₁ hv =>
        Yields.bind (genExpr_yields h b (List.Subset.trans sub sub₁) hb tb) fun w known₂ sub₂ hw =>
          arithOf_yields other (hv.mono sub₂) hw
  | .not e, i, known, sub, recorded, typed => by
    obtain ⟨⟨_, te⟩, rfl⟩ := Typing.hasType_not.mp typed
    rw [genForm]
    exact Yields.bind (genExpr_yields h e sub recorded te) fun v known₁ sub₁ hv =>
      Yields.arith (n := 1) rfl (.bit (Or.inr rfl)) hv
  | .lookup a e, i, known, sub, recorded, typed => by
    obtain ⟨ha, he⟩ := List.forall_mem_append.mp recorded
    obtain ⟨array, _, element, ta, helement, ⟨_, te⟩, rfl⟩ := Typing.hasType_lookup.mp typed
    rw [genForm, infoOf_eq ha ta, of_bind]
    refine Yields.bind (genExpr_yields h a sub ha ta) fun v known₁ sub₁ hv => ?_
    have sub₁ := List.Subset.trans sub sub₁
    refine Yields.bind (genExpr_yields h e sub₁ he te) fun w known₂ sub₂ hw => ?_
    have globals := List.Subset.trans h.globals (List.Subset.trans sub₁ sub₂)
    exact Yields.bind (elementPointer_yields helement globals (hv.mono sub₂) hw)
      fun p known₃ sub₃ hp => loadElement_yields helement hp
  | .length a, i, known, sub, recorded, typed => by
    obtain ⟨array, _, element, ta, helement, rfl⟩ := Typing.hasType_length.mp typed
    rw [genForm, infoOf_eq recorded ta, of_bind]
    exact Yields.bind (genExpr_yields h a sub recorded ta) fun v known₁ sub₁ hv =>
      arrayLength_yields helement hv
  | .send r m args, i, known, sub, recorded, typed => by
    obtain ⟨hr, hargs⟩ := List.forall_mem_append.mp recorded
    rw [ExprForm.bare_send] at typed
    obtain ⟨ty, q, ref, k, tr, calls, hk, fit, rfl⟩ := Typing.hasType_send.mp typed
    obtain ⟨l, hl, hslot, paramTys⟩ := h.serves.method calls hk
    obtain ⟨slot, hslot⟩ := Option.isSome_iff_exists.mp hslot
    have returnTy := h.returnTy hl hk
    rw [genForm]
    simp only [ofOption_some, of_bind, resolvedMethod, hl, hslot]
    refine Yields.bind (genExpr_yields h r sub hr tr) fun v known₁ sub₁ hv => ?_
    refine Gives.bind (genArgs_gives h args (List.Subset.trans sub sub₁) hargs (paramTys ▸ fit))
      fun vs known₂ sub₂ ⟨types, typed⟩ => ?_
    rw [← returnTy]
    rw [receiver_ir calls] at hv
    exact invoke_yields (hv.mono sub₂) types typed
  | .int n, i, known, sub, _, typed => by
    obtain rfl := Typing.hasType_int.mp typed
    rw [genForm]
    exact .of (.int _)
  | .tt, i, known, sub, _, typed => by
    obtain rfl := Typing.hasType_tt.mp typed
    rw [genForm]
    exact .of (.bool _)
  | .ff, i, known, sub, _, typed => by
    obtain rfl := Typing.hasType_ff.mp typed
    rw [genForm]
    exact .of (.bool _)
  | .name x, i, known, sub, _, typed => by
    obtain ⟨v, ty, denotes, rfl⟩ := Typing.hasType_name.mp typed
    rw [genForm]
    simp only [ofOption_some, of_bind, resolvedVar]
    exact loadVar_yields h sub denotes
  | .this, i, known, sub, _, typed => by
    obtain ⟨method, rfl⟩ := Typing.hasType_this.mp typed
    rw [genForm]
    exact .of (.named (sub (h.method method)))
  | .newIntArray n, i, known, sub, recorded, typed => by
    obtain ⟨⟨_, tn⟩, rfl⟩ := Typing.hasType_newIntArray.mp typed
    rw [genForm]
    refine Yields.bind (genExpr_yields h n sub recorded tn) fun v known₁ sub₁ hv => ?_
    have globals := List.Subset.trans h.globals (List.Subset.trans sub sub₁)
    exact @newArray_yields _ _ .intArray _ rfl globals _ hv
  | .newBooleanArray n, i, known, sub, recorded, typed => by
    obtain ⟨⟨_, tn⟩, rfl⟩ := Typing.hasType_newBooleanArray.mp typed
    rw [genForm]
    refine Yields.bind (genExpr_yields h n sub recorded tn) fun v known₁ sub₁ hv => ?_
    have globals := List.Subset.trans h.globals (List.Subset.trans sub sub₁)
    exact @newArray_yields _ _ .booleanArray _ rfl globals _ hv
  | .newObject name, i, known, sub, _, typed => by
    obtain ⟨id, ⟨hid, _⟩, rfl⟩ := Typing.hasType_newObject.mp typed
    have hl := List.getElem?_eq_getElem (h.serves.class_lt hid)
    rw [genForm]
    simp only [ofOption_some, of_bind, resolvedClass, hl]
    exact newObject_yields (List.Subset.trans h.globals sub) (List.getElem_mem _)
  | .bracket e, i, known, sub, recorded, typed => by
    rw [genForm]
    exact genExpr_yields h e sub recorded (Typing.hasType_bracket.mp typed)

theorem genArgs_gives (h : Provides c s names) :
    ∀ (es : List (Expr Note)) {tys : List Ty} {known : Names}, names ⊆ known →
      (∀ x ∈ allArgs es, NoteFits s x) → ArgsFit s tys (es.map Expr.bare) →
        Gives known (genArgs c tys es) fun known' vs =>
          vs.map Prod.fst = tys.map Ty.ir ∧ ArgsTyped known' vs
  | [], tys, known, sub, _, fit => by
    cases fit with
    | nil =>
      rw [genArgs]
      exact .of ⟨rfl, nofun⟩
  | e :: es, [], known, sub, _, fit => nomatch fit
  | e :: es, ty :: tys, known, sub, recorded, fit => by
    obtain ⟨he, hes⟩ := List.forall_mem_append.mp recorded
    obtain ⟨⟨j, te, assignable⟩, fit⟩ := Typing.argsFit_cons.mp fit
    rw [genArgs]
    refine Yields.bind (genExpr_yields h e sub he te) fun v known₁ sub₁ hv => ?_
    refine Gives.bind (genArgs_gives h es (List.Subset.trans sub sub₁) hes fit)
      fun vs known₂ sub₂ ⟨types, typed⟩ => .pure ⟨?_, ?_⟩
    · rw [List.map_cons, List.map_cons, types]
    · refine List.forall_mem_cons.mpr ⟨?_, typed⟩
      rw [← ir_eq_of_assignable assignable]
      exact hv.mono sub₂

end

mutual

theorem genStmt_runs (h : Provides c s names) :
    ∀ (st : Stmt Note Target) {known : Names}, names ⊆ known → StmtRecorded s st →
      StmtTyped s st.bare → Runs known (genStmt c st)
  | .block n body, known, sub, recorded, typed => by
    have bare : (Stmt.block n body).bare = .block n (body.map Stmt.bare) :=
      congrArg (Stmt.block n) (mapBody_eq_map _ _ body)
    rw [bare] at typed
    rw [genStmt]
    exact genStmts_runs h body sub recorded (Typing.stmtTyped_block.mp typed)
  | .assign n x target e, known, sub, recorded, typed => by
    obtain ⟨⟨v, ty, rfl, denotes, only⟩, he⟩ := Typing.stmtRecorded_assign.mp recorded
    obtain ⟨w, ty', denotes', i, te, fits⟩ := Typing.stmtTyped_assign.mp typed
    obtain ⟨rfl, rfl⟩ := only w ty' denotes'
    rw [genStmt]
    refine Yields.bind (genExpr_yields h e sub he te) fun value known₁ sub₁ hvalue => ?_
    rw [ofOption_some, of_bind]
    exact storeVar_runs h (List.Subset.trans sub sub₁) denotes (ir_eq_of_assignable fits ▸ hvalue)
  | .arrayAssign n x target i e, known, sub, recorded, typed => by
    obtain ⟨⟨v, ty, rfl, denotes, only⟩, hi, he⟩ := Typing.stmtRecorded_arrayAssign.mp recorded
    obtain ⟨w, array, denotes', element, helement, ⟨_, ti⟩, _, te⟩ :=
      Typing.stmtTyped_arrayAssign.mp typed
    obtain ⟨rfl, rfl⟩ := only w array denotes'
    rw [genStmt, ofOption_some, of_bind, h.varTy denotes, of_bind]
    refine Yields.bind (loadVar_yields h sub denotes) fun a known₁ sub₁ ha => ?_
    have sub₁ := List.Subset.trans sub sub₁
    refine Yields.bind (genExpr_yields h i sub₁ hi ti) fun index known₂ sub₂ hindex => ?_
    have sub₁₂ := List.Subset.trans sub₁ sub₂
    refine Yields.bind (genExpr_yields h e sub₁₂ he te) fun value known₃ sub₃ hvalue => ?_
    have globals := List.Subset.trans h.globals (List.Subset.trans sub₁₂ sub₃)
    have ha := (ha.mono sub₂).mono sub₃
    refine Yields.bind (elementPointer_yields helement globals ha (hindex.mono sub₃))
      fun p known₄ sub₄ hp => ?_
    exact storeElement_runs helement hp (hvalue.mono sub₄)
  | .ifElse n e yes no, known, sub, recorded, typed => by
    obtain ⟨he, hyes, hno⟩ := Typing.stmtRecorded_ifElse.mp recorded
    obtain ⟨⟨_, te⟩, tyes, tno⟩ := Typing.stmtTyped_ifElse.mp typed
    rw [genStmt]
    exact .ifElse (genExpr_yields h e sub he te)
      (fun known₁ sub₁ => genStmt_runs h yes (List.Subset.trans sub sub₁) hyes tyes)
      fun known₁ sub₁ => genStmt_runs h no (List.Subset.trans sub sub₁) hno tno
  | .while n e body, known, sub, recorded, typed => by
    obtain ⟨he, hbody⟩ := Typing.stmtRecorded_while.mp recorded
    obtain ⟨⟨_, te⟩, tbody⟩ := Typing.stmtTyped_while.mp typed
    rw [genStmt]
    exact .loop (genExpr_yields h e sub he te) fun known₁ sub₁ =>
      genStmt_runs h body (List.Subset.trans sub sub₁) hbody tbody
  | .print n e, known, sub, recorded, typed => by
    obtain ⟨_, te⟩ := Typing.stmtTyped_print.mp typed
    rw [genStmt]
    refine Yields.bind (genExpr_yields h e sub (Typing.stmtRecorded_print.mp recorded) te)
      fun v known₁ sub₁ hv => Runs.emit rfl
        ⟨.void, Or.inr rfl, .named ?_, List.forall_mem_singleton.mpr hv⟩
    exact sub₁ (sub (h.globals (mem_globals (b := .printInt) rfl)))

theorem genStmts_runs (h : Provides c s names) :
    ∀ (body : List (Stmt Note Target)) {known : Names}, names ⊆ known → BodyRecorded s body →
      BodyTyped s (body.map Stmt.bare) → Runs known (genStmts c body)
  | [], known, _, _, _ => by
    rw [genStmts]
    exact .of trivial
  | st :: body, known, sub, recorded, typed => by
    obtain ⟨hst, hbody⟩ := Typing.bodyRecorded_cons.mp recorded
    obtain ⟨tst, tbody⟩ := Typing.bodyTyped_cons.mp typed
    rw [genStmts]
    exact Runs.bind (genStmt_runs h st sub hst tst) fun known₁ sub₁ =>
      genStmts_runs h body (List.Subset.trans sub sub₁) hbody tbody

end

end Body

end MiniJava.Codegen
