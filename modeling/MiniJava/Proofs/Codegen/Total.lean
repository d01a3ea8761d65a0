import MiniJava.Codegen.Generate
import MiniJava.Identity
import MiniJava.Proofs.Codegen.Emit

/-!
# When code generation does not fail

Everything that code generation asks for is on the expression or target that it compiles: a type, a
reference, and behind the reference something that is there. A program of which that holds is
usable, and all its functions are generated.
-/
namespace MiniJava.Codegen

open IR

/-- Code is generated from any cursor. -/
def Succeeds {α : Type} (x : Gen α) : Prop := ∀ k, ∃ a, (x k).result = .ok a

section Succeeds
variable {α β : Type}

theorem Succeeds.pure (a : α) : Succeeds (pure a : Gen α) := fun _ => ⟨a, rfl⟩

theorem Succeeds.of (a : α) : Succeeds (Gen.of a) := fun _ => ⟨a, rfl⟩

theorem Succeeds.bind {x : Gen α} {f : α → Gen β} (hx : Succeeds x) (hf : ∀ a, Succeeds (f a)) :
    Succeeds (x >>= f) := by
  intro k
  obtain ⟨a, ha⟩ := hx k
  obtain ⟨b, hb⟩ := hf a (x k).cursor
  refine ⟨b, ?_⟩
  change (Gen.andThen x f k).result = .ok b
  simp only [Gen.andThen, ha]
  exact hb

theorem Succeeds.emit (i : Instr) : Succeeds (emit i) := fun _ => ⟨(), rfl⟩

theorem Succeeds.emitValue (rhs : Rhs) : Succeeds (emitValue rhs) := fun _ => ⟨_, rfl⟩

theorem Succeeds.startBlock (l : Label) : Succeeds (startBlock l) := fun _ => ⟨(), rfl⟩

theorem Succeeds.currentBlock : Succeeds currentBlock := fun _ => ⟨_, rfl⟩

theorem Succeeds.nextLabels (get : LabelCounters → Nat) (set : LabelCounters → LabelCounters) :
    Succeeds (nextLabels get set) := fun _ => ⟨_, rfl⟩

/-- What is asked for is there. -/
theorem Succeeds.ofOption {e : CodegenError} {o : Option α} (h : o.isSome = true) :
    Succeeds (ofOption e o) := by
  obtain ⟨a, rfl⟩ := Option.isSome_iff_exists.mp h
  exact .of a

theorem Succeeds.ite {p : Prop} [Decidable p] {x y : Gen α} (hx : Succeeds x) (hy : Succeeds y) :
    Succeeds (if p then x else y) := by
  split
  · exact hx
  · exact hy

end Succeeds

def VarUsable (c : Env) : VarRef → Prop
  | .loc i => i < c.locals.length
  | .field r => ∃ f, c.table.field? r = some f ∧ f.offset.isSome = true

/-- The note is there, with the reference that the form is compiled from; a call has as many
arguments as parameters. -/
def ExprUsable (c : Env) : Expr Note → Prop
  | .node _ note form => ∃ info, note = some info ∧ match form with
    | .name _ => ∃ v, info.ref = some (.var v) ∧ VarUsable c v
    | .send _ _ args => ∃ r m, info.ref = some (.method r) ∧ c.table.method? r = some m ∧
      m.slot?.isSome = true ∧ m.paramTys.length = args.length
    | .newObject _ => ∃ id, info.ref = some (.cls id) ∧ id < c.layout.length
    | _ => True

def ItemUsable (c : Env) : Item Note Target → Prop
  | .expr e => ExprUsable c e
  | .target _ note => ∃ v, note = some v ∧ VarUsable c v

section Memory
variable {c : Env} {v : VarRef}

theorem VarUsable.varTy (h : VarUsable c v) : Succeeds (varTy c v) := by
  cases v with
  | loc i =>
    apply Succeeds.ofOption
    rw [List.getElem?_eq_getElem h]
    rfl
  | field r =>
    obtain ⟨f, hf, _⟩ := h
    apply Succeeds.ofOption
    rw [hf]
    rfl

theorem VarUsable.varPointer (h : VarUsable c v) : Succeeds (varPointer c v) := by
  cases v with
  | loc i =>
    apply Succeeds.ofOption
    rw [List.getElem?_eq_getElem h]
    rfl
  | field r =>
    obtain ⟨f, hf, offset⟩ := h
    rw [Codegen.varPointer, hf, ofOption_some, of_bind]
    exact (Succeeds.ofOption offset).bind fun _ =>
      (Succeeds.emitValue _).bind fun _ => .emitValue _

theorem VarUsable.loadVar (h : VarUsable c v) : Succeeds (loadVar c v) :=
  h.varTy.bind fun _ => h.varPointer.bind fun _ => .emitValue _

theorem VarUsable.storeVar (h : VarUsable c v) (value : Value) : Succeeds (storeVar c v value) :=
  h.varTy.bind fun _ => h.varPointer.bind fun _ => .emit _

theorem newObject_succeeds (l : ClassLayout) : Succeeds (newObject l) :=
  (Succeeds.emitValue _).bind fun _ => (Succeeds.emitValue _).bind fun _ =>
    (Succeeds.emitValue _).bind fun _ => (Succeeds.emit _).bind fun _ => .pure _

theorem trap_succeeds (label : Label) (b : Builtin) : Succeeds (trap label b) :=
  (Succeeds.startBlock _).bind fun _ => (Succeeds.emit _).bind fun _ => .emit _

theorem newArray_succeeds (ty : Ty) (size : Value) : Succeeds (newArray ty size) := by
  refine .ite ((Succeeds.emitValue _).bind fun _ => ?_) ((Succeeds.of _).bind fun _ => ?_)
  all_goals
    exact (Succeeds.emitValue _).bind fun _ => (Succeeds.emitValue _).bind fun _ =>
      (Succeeds.nextLabels _ _).bind fun _ => (Succeeds.emit _).bind fun _ =>
      (trap_succeeds _ _).bind fun _ => (Succeeds.startBlock _).bind fun _ =>
      (Succeeds.emitValue _).bind fun _ => (Succeeds.emitValue _).bind fun _ =>
      (Succeeds.emit _).bind fun _ => .pure _

theorem arrayLength_succeeds (ty : Ty) (array : Value) : Succeeds (arrayLength ty array) :=
  .ite ((Succeeds.of _).bind fun _ => .emitValue _)
    ((Succeeds.emitValue _).bind fun _ => .emitValue _)

theorem elementPointer_succeeds (ty : Ty) (array index : Value) :
    Succeeds (elementPointer ty array index) := by
  have place : Succeeds (if isWide ty then do
      let position ← emitValue (.arith .add .i32 index (.int 1))
      emitValue (.address .i32 array [position])
    else do
      let position ← emitValue (.arith .add .i32 index (.int countBytes))
      emitValue (.address .i8 array [position])) :=
    .ite ((Succeeds.emitValue _).bind fun _ => .emitValue _)
      ((Succeeds.emitValue _).bind fun _ => .emitValue _)
  exact (arrayLength_succeeds ty array).bind fun _ => (Succeeds.emitValue _).bind fun _ =>
    (Succeeds.emitValue _).bind fun _ => (Succeeds.emitValue _).bind fun _ =>
    (Succeeds.nextLabels _ _).bind fun _ => (Succeeds.emit _).bind fun _ =>
    (trap_succeeds _ _).bind fun _ => (Succeeds.startBlock _).bind fun _ => place

theorem loadElement_succeeds (ty : Ty) (element : Value) : Succeeds (loadElement ty element) :=
  .ite (.emitValue _) ((Succeeds.emitValue _).bind fun _ => .emitValue _)

theorem storeElement_succeeds (ty : Ty) (element value : Value) :
    Succeeds (storeElement ty element value) :=
  .ite (.emit _) ((Succeeds.emitValue _).bind fun _ => .emit _)

end Memory

section Expressions
variable {c : Env}

theorem ExprUsable.infoOf {e : Expr Note} (h : ExprUsable c e) : Succeeds (infoOf e) := by
  obtain ⟨line, note, form⟩ := e
  obtain ⟨info, rfl, _⟩ := h
  exact .of info

theorem genAnd_succeeds {a b : Gen Value} (ha : Succeeds a) (hb : Succeeds b) :
    Succeeds (genAnd a b) :=
  ha.bind fun _ => (Succeeds.nextLabels _ _).bind fun _ => Succeeds.currentBlock.bind fun _ =>
    (Succeeds.emit _).bind fun _ => (Succeeds.startBlock _).bind fun _ => hb.bind fun _ =>
    Succeeds.currentBlock.bind fun _ => (Succeeds.emit _).bind fun _ =>
    (Succeeds.startBlock _).bind fun _ => .emitValue _

theorem invoke_succeeds (m : Method) (slot : Nat) (receiver : Value)
    (args : List (IRType × Value)) : Succeeds (invoke m slot receiver args) :=
  (Succeeds.emitValue _).bind fun _ => (Succeeds.emitValue _).bind fun _ =>
    (Succeeds.emitValue _).bind fun _ => (Succeeds.emitValue _).bind fun _ =>
    (Succeeds.emitValue _).bind fun _ => .emitValue _

theorem self_mem_all (e : Expr Note) : e ∈ e.all := by
  obtain ⟨line, note, form⟩ := e
  exact List.mem_cons_self

mutual

theorem genExpr_succeeds : ∀ e : Expr Note, (∀ x ∈ e.all, ExprUsable c x) → Succeeds (genExpr c e)
  | .node line note form, h => by
    rw [genExpr]
    exact genForm_succeeds line note form (h _ (self_mem_all _))
      fun x hx => h x (List.mem_cons_of_mem _ hx)

theorem genForm_succeeds (line : Nat) (note : Note) :
    ∀ form : ExprForm Note, ExprUsable c (.node line note form) →
      (∀ x ∈ form.all, ExprUsable c x) → Succeeds (genForm c line note form)
  | .binary op a b, _, h => by
    obtain ⟨ha, hb⟩ := List.forall_mem_append.mp h
    rw [genForm]
    exact .ite (genAnd_succeeds (genExpr_succeeds a ha) (genExpr_succeeds b hb))
      ((genExpr_succeeds a ha).bind fun _ => (genExpr_succeeds b hb).bind fun _ => .emitValue _)
  | .not e, _, h => by
    rw [genForm]
    exact (genExpr_succeeds e h).bind fun _ => .emitValue _
  | .lookup a i, _, h => by
    obtain ⟨ha, hi⟩ := List.forall_mem_append.mp h
    rw [genForm]
    exact (ha a (self_mem_all a)).infoOf.bind fun _ => (genExpr_succeeds a ha).bind fun _ =>
      (genExpr_succeeds i hi).bind fun _ => (elementPointer_succeeds _ _ _).bind fun _ =>
      loadElement_succeeds _ _
  | .length a, _, h => by
    rw [genForm]
    exact (h a (self_mem_all a)).infoOf.bind fun _ => (genExpr_succeeds a h).bind fun _ =>
      arrayLength_succeeds _ _
  | .send r _ args, usable, h => by
    obtain ⟨hr, hargs⟩ := List.forall_mem_append.mp h
    obtain ⟨info, rfl, ref, m, href, hm, slot, _⟩ := usable
    have resolved : ∀ e, resolvedMethod e info = Gen.of ref := by
      intro e
      rw [resolvedMethod, href]
    rw [genForm]
    simp only [ofOption_some, of_bind, resolved, hm]
    exact (Succeeds.ofOption slot).bind fun _ => (genExpr_succeeds r hr).bind fun _ =>
      (genArgs_succeeds args hargs _).bind fun _ => invoke_succeeds _ _ _ _
  | .int _, _, _ => by
    rw [genForm]
    exact .of _
  | .tt, _, _ => by
    rw [genForm]
    exact .of _
  | .ff, _, _ => by
    rw [genForm]
    exact .of _
  | .name _, usable, _ => by
    obtain ⟨info, rfl, v, hv, var⟩ := usable
    have resolved : ∀ e, resolvedVar e info = Gen.of v := by
      intro e
      rw [resolvedVar, hv]
    rw [genForm]
    simp only [ofOption_some, of_bind, resolved]
    exact var.loadVar
  | .this, _, _ => by
    rw [genForm]
    exact .of _
  | .newIntArray n, _, h => by
    rw [genForm]
    exact (genExpr_succeeds n h).bind fun _ => newArray_succeeds _ _
  | .newBooleanArray n, _, h => by
    rw [genForm]
    exact (genExpr_succeeds n h).bind fun _ => newArray_succeeds _ _
  | .newObject _, usable, _ => by
    obtain ⟨info, rfl, id, hid, hlt⟩ := usable
    have resolved : ∀ e, resolvedClass e info = Gen.of id := by
      intro e
      rw [resolvedClass, hid]
    rw [genForm]
    simp only [ofOption_some, of_bind, resolved]
    refine (Succeeds.ofOption ?_).bind fun _ => newObject_succeeds _
    rw [List.getElem?_eq_getElem hlt]
    rfl
  | .bracket e, _, h => by
    rw [genForm]
    exact genExpr_succeeds e h

theorem genArgs_succeeds :
    ∀ es : List (Expr Note), (∀ x ∈ allArgs es, ExprUsable c x) → ∀ tys, Succeeds (genArgs c tys es)
  | [], _, tys => by
    rw [genArgs]
    exact .of _
  | e :: es, h, tys => by
    obtain ⟨he, hes⟩ := List.forall_mem_append.mp h
    cases tys with
    | nil =>
      rw [genArgs]
      exact .of _
    | cons ty tys =>
      rw [genArgs]
      exact (genExpr_succeeds e he).bind fun _ => (genArgs_succeeds es hes tys).bind fun _ => .pure _

end

end Expressions

section Statements
variable {c : Env}

theorem genIf_succeeds {cond : Gen Value} {yes no : Gen Unit} (hc : Succeeds cond)
    (hy : Succeeds yes) (hn : Succeeds no) : Succeeds (genIf cond yes no) :=
  hc.bind fun _ => (Succeeds.nextLabels _ _).bind fun _ => (Succeeds.emit _).bind fun _ =>
    (Succeeds.startBlock _).bind fun _ => hy.bind fun _ => (Succeeds.emit _).bind fun _ =>
    (Succeeds.startBlock _).bind fun _ => hn.bind fun _ => (Succeeds.emit _).bind fun _ =>
    .startBlock _

theorem genWhile_succeeds {cond : Gen Value} {body : Gen Unit} (hc : Succeeds cond)
    (hb : Succeeds body) : Succeeds (genWhile cond body) :=
  (Succeeds.nextLabels _ _).bind fun _ => (Succeeds.emit _).bind fun _ =>
    (Succeeds.startBlock _).bind fun _ => hc.bind fun _ => (Succeeds.emit _).bind fun _ =>
    (Succeeds.startBlock _).bind fun _ => hb.bind fun _ => (Succeeds.emit _).bind fun _ =>
    .startBlock _

theorem genExpr_of_items {e : Expr Note} (h : ∀ x ∈ e.items, ItemUsable c x) :
    Succeeds (genExpr c e) :=
  genExpr_succeeds e fun x hx => h (.expr x) (List.mem_map_of_mem hx)

mutual

theorem genStmt_succeeds :
    ∀ st : Stmt Note Target, (∀ x ∈ st.items, ItemUsable c x) → Succeeds (genStmt c st)
  | .block _ body, h => by
    rw [genStmt]
    exact genStmts_succeeds body h
  | .assign _ _ _ e, h => by
    obtain ⟨⟨v, rfl, hv⟩, he⟩ := List.forall_mem_cons.mp h
    rw [genStmt]
    exact (genExpr_of_items he).bind fun _ => hv.storeVar _
  | .arrayAssign _ _ _ i e, h => by
    obtain ⟨⟨v, rfl, hv⟩, rest⟩ := List.forall_mem_cons.mp h
    obtain ⟨hi, he⟩ := List.forall_mem_append.mp rest
    rw [genStmt]
    exact hv.varTy.bind fun _ => hv.loadVar.bind fun _ => (genExpr_of_items hi).bind fun _ =>
      (genExpr_of_items he).bind fun _ => (elementPointer_succeeds _ _ _).bind fun _ =>
      storeElement_succeeds _ _ _
  | .ifElse _ e yes no, h => by
    obtain ⟨h, hn⟩ := List.forall_mem_append.mp h
    obtain ⟨he, hy⟩ := List.forall_mem_append.mp h
    rw [genStmt]
    exact genIf_succeeds (genExpr_of_items he) (genStmt_succeeds yes hy) (genStmt_succeeds no hn)
  | .while _ e body, h => by
    obtain ⟨he, hb⟩ := List.forall_mem_append.mp h
    rw [genStmt]
    exact genWhile_succeeds (genExpr_of_items he) (genStmt_succeeds body hb)
  | .print _ e, h => by
    rw [genStmt]
    exact (genExpr_of_items h).bind fun _ => .emit _

theorem genStmts_succeeds :
    ∀ body : List (Stmt Note Target), (∀ x ∈ bodyItems body, ItemUsable c x) →
      Succeeds (genStmts c body)
  | [], _ => by
    rw [genStmts]
    exact .of _
  | st :: sts, h => by
    obtain ⟨hst, hsts⟩ := List.forall_mem_append.mp h
    rw [genStmts]
    exact (genStmt_succeeds st hst).bind fun _ => genStmts_succeeds sts hsts

end

theorem allocate_succeeds (xs : List Local) : Succeeds (allocate c xs) := by
  induction xs with
  | nil => exact .of _
  | cons x xs ih => exact (Succeeds.emit _).bind fun _ => ih

theorem storeParams_succeeds (xs : List Local) : Succeeds (storeParams c xs) := by
  induction xs with
  | nil => exact .of _
  | cons x xs ih => exact (Succeeds.emit _).bind fun _ => ih

theorem genSlots_succeeds (params : List Local) : Succeeds (genSlots c params) :=
  (Succeeds.startBlock _).bind fun _ => (allocate_succeeds _).bind fun _ => storeParams_succeeds _

theorem mainBody_succeeds {body : List (Stmt Note Target)}
    (h : ∀ x ∈ bodyItems body, ItemUsable c x) : Succeeds (mainBody c body) :=
  (genSlots_succeeds _).bind fun _ => (genStmts_succeeds body h).bind fun _ => .emit _

theorem methodBody_succeeds (m : Method) {d : MethodDecl .checked}
    (h : ∀ x ∈ d.items, ItemUsable c x) : Succeeds (methodBody c m d.body d.result) := by
  obtain ⟨body, result⟩ := List.forall_mem_append.mp h
  exact (genSlots_succeeds _).bind fun _ => (genStmts_succeeds d.body body).bind fun _ =>
    (genExpr_of_items result).bind fun _ => .emit _

end Statements

/-- Of an environment only the table, the layout and the locals are asked for. -/
def MethodUsable (t : ClassTable) (l : Layout) (d : MethodDecl .checked) : Prop :=
  ∃ r m, d.note = some r ∧ t.method? r = some m ∧
    ∀ scope, ∀ x ∈ d.items, ItemUsable ⟨t, l, scope, m.locals⟩ x

structure ProgramUsable (t : ClassTable) (l : Layout) (p : Program .checked) : Prop where
  main : ∀ scope, ∀ x ∈ bodyItems p.main.body, ItemUsable ⟨t, l, scope, mainLocals t⟩ x
  classes : ∀ d ∈ p.classes,
    (∃ id, d.note = some id ∧ id < t.size) ∧ ∀ m ∈ d.methods, MethodUsable t l m

theorem addFunction_failure {labels : LabelCounters} {h : Header} {body : Gen Unit}
    {rest : LabelCounters → Built} (hbody : Succeeds body)
    (hrest : ∀ labels, (rest labels).failure = none) :
    (addFunction labels h body rest).failure = none := by
  obtain ⟨_, ha⟩ := hbody { labels }
  simp only [addFunction, ha]
  exact hrest _

theorem methodFunctions_failure {t : ClassTable} {l : Layout} (cls : Name)
    {rest : LabelCounters → Built} (hrest : ∀ labels, (rest labels).failure = none)
    (ds : List (MethodDecl .checked)) (h : ∀ d ∈ ds, MethodUsable t l d) :
    ∀ labels, (methodFunctions t l cls rest ds labels).failure = none := by
  induction ds with
  | nil => exact hrest
  | cons d ds ih =>
    intro labels
    obtain ⟨r, m, note, hm, items⟩ := h d List.mem_cons_self
    simp only [methodFunctions, note, hm]
    exact addFunction_failure (methodBody_succeeds m (items _))
      (ih fun k hk => h k (List.mem_cons_of_mem d hk))

theorem classFunctions_failure {t : ClassTable} {l : Layout} (ds : List (ClassDecl .checked))
    (h : ∀ d ∈ ds, (∃ id, d.note = some id ∧ id < t.size) ∧ ∀ m ∈ d.methods, MethodUsable t l m) :
    ∀ labels, (classFunctions t l ds labels).failure = none := by
  induction ds with
  | nil => intro labels; rfl
  | cons d ds ih =>
    intro labels
    obtain ⟨⟨id, hid, _⟩, methods⟩ := h d List.mem_cons_self
    simp only [classFunctions, hid]
    exact methodFunctions_failure _ (ih fun k hk => h k (List.mem_cons_of_mem d hk)) _ methods _

/-- All functions of a usable program are generated. -/
theorem ProgramUsable.generate {t : ClassTable} {l : Layout} {p : Program .checked}
    (h : ProgramUsable t l p) : (generate t l p).2 = none :=
  addFunction_failure (mainBody_succeeds (h.main _)) (classFunctions_failure p.classes h.classes)

end MiniJava.Codegen
