import MiniJava.Proofs.Steps.Order

/-!
# Reads and writes

A step reads the variables that its expressions name, from left to right, and writes the variable
that it assigns to. An assignment to an element of an array reads the array first. Where a step is
well typed, all that it reports is the reads of variables without the mark of initialization.
-/
namespace MiniJava

open Check

/-- A parameter or variable of a method, or of `main` where there is no method; or a field, which is
the same variable in all methods and all classes that see it. -/
inductive Variable where
  | loc (method : Option MethodRef) (index : Nat)
  | field (ref : FieldRef)
  deriving DecidableEq

/-- How a variable is used, in the order of the traversal. -/
inductive Use where
  | read (line : Nat) (name : Name) (v : Variable)
  | write (v : Variable)
  deriving DecidableEq

namespace Check

def Place.variable (p : Place) : VarRef → Variable
  | .loc i => .loc p.method i
  | .field r => .field r

/-- The variable of a name: a local, else the field of the nearest class that declares it. -/
def Scope.denotes? (s : Scope) (x : Name) : Option Variable :=
  match s.locals.findIdx? (·.name == x) with
  | some i => some (.loc s.place.method i)
  | none => (s.table.findField? s.place.cls x).map .field

def Scope.reads (s : Scope) (line : Nat) (x : Name) : List Use :=
  ((s.denotes? x).map (.read line x)).toList

def Scope.writes (s : Scope) (x : Name) : List Use := ((s.denotes? x).map .write).toList

/-- A name that stands alone is read where it stands. -/
def Scope.readsAt (s : Scope) : Expr Unit → List Use
  | .node line _ (.name x) => s.reads line x
  | _ => []

end Check

def Expr.reads (s : Scope) (e : Expr Unit) : List Use := e.all.flatMap s.readsAt

def Step.uses (s : Scope) : Step Unit → List Use
  | .block _ => []
  | .assign _ x value => value.reads s ++ s.writes x
  | .arrayAssign line x index value => s.reads line x ++ index.reads s ++ value.reads s
  | .condition _ e | .print _ e | .result e => e.reads s

def Visit.uses (t : ClassTable) (v : Visit) : List Use := v.step.uses ⟨t, v.place⟩

namespace Check

/-- The mark of a variable. -/
def flag (t : ClassTable) : Variable → Bool
  | .loc none i => (Scope.mk t ⟨0, none⟩).isInitialized (.loc i)
  | .loc (some r) i => (Scope.mk t ⟨r.cls, some r⟩).isInitialized (.loc i)
  | .field r => (t.field? r).any (·.initialized)

theorem Place.Proper.flag_variable {p : Place} (h : p.Proper) (t : ClassTable) (v : VarRef) :
    flag t (p.variable v) = (Scope.mk t p).isInitialized v := by
  cases h <;> cases v <;> rfl

/-- What is reported of a use, by the marks of a class table. -/
def unmarked (t : ClassTable) : Use → List Finding
  | .read line x v => if flag t v then [] else [⟨line, .uninitialized x⟩]
  | .write _ => []

theorem unmarked_writes (t : ClassTable) (s : Scope) (x : Name) :
    (s.writes x).flatMap (unmarked t) = [] := by
  rw [Scope.writes]
  cases s.denotes? x <;> rfl

end Check

/-- None of the findings says that a variable might not have been initialized. -/
def Faults (fs : List Finding) : Prop := ∀ f ∈ fs, Typing.Fault f.error

@[simp] theorem faults_singleton {line : Nat} {e : SemanticError} :
    Faults [⟨line, e⟩] ↔ Typing.Fault e := List.forall_mem_singleton

theorem Faults.eq_nil {fs : List Finding} (h : Faults fs) (only : OnlyUninitialized fs) :
    fs = [] := by
  cases fs with
  | nil => rfl
  | cons f fs =>
    obtain ⟨x, hx⟩ := only f List.mem_cons_self
    exact absurd hx (h f List.mem_cons_self x)

section Checks
variable (s : Scope) (line : Nat)

theorem resolve_faults (x : Name) : Faults (s.resolve line x).findings := by
  intro f hf
  rcases mem_resolve hf with rfl | rfl <;> simp [Typing.Fault]

theorem instantiate_faults (x : Name) : Faults (s.instantiate line x).findings := by
  intro f hf
  rcases mem_instantiate hf with rfl | rfl <;> simp [Typing.Fault]

theorem callee_faults (ty : Ty) (m : Name) : Faults (s.callee line ty m).findings := by
  intro f hf
  rcases mem_callee hf with ⟨_, rfl⟩ | ⟨c, _, rfl⟩ <;> simp [Typing.Fault]

theorem expect_faults (e : Expr Note) (ty : Ty) {error : Ty → SemanticError}
    (fault : ∀ ty, Typing.Fault (error ty)) : Faults (expect line e ty error).findings := by
  intro f hf
  obtain ⟨found, rfl⟩ := mem_expect hf
  exact fault found

theorem elementTy_faults (e : Expr Note) : Faults (elementTy line e).findings := by
  intro f hf
  obtain ⟨ty, rfl⟩ := mem_elementTy hf
  simp [Typing.Fault]

theorem typeBinary_faults (op : BinOp) (a b : Expr Note) :
    Faults (typeBinary line op a b).findings := by
  intro f hf
  obtain ⟨l, r, rfl⟩ := mem_typeBinary hf
  simp [Typing.Fault]

theorem checkArg_faults (m : Name) (position : Nat) (ty : Ty) (e : Expr Note) :
    Faults (checkArg s line m position ty e).findings := by
  intro f hf
  obtain ⟨found, rfl⟩ := mem_checkArg hf
  simp [Typing.Fault]

theorem checkStored_faults (t : ClassTable) (ty : Ty) (e : Expr Note) :
    Faults (checkStored t line ty e).findings := by
  intro f hf
  obtain ⟨found, rfl⟩ := mem_checkStored hf
  simp [Typing.Fault]

theorem checkReturned_faults (t : ClassTable) (ref : MethodRef) (e : Expr Note) :
    Faults (checkReturned t ref e).findings := by
  intro f hf
  obtain ⟨m, ty, found, rfl⟩ := mem_checkReturned hf
  simp [Typing.Fault]

end Checks

/-- What a name resolves to is its variable. -/
theorem Check.Scope.denotes?_of_resolve {s : Scope} {line : Nat} {x : Name} {v : VarRef} {ty : Ty}
    (h : (s.resolve line x).value = some (v, ty)) : s.denotes? x = some (s.place.variable v) := by
  rw [resolve] at h
  rw [denotes?]
  cases here : s.locals.findIdx? (·.name == x) with
  | some i =>
    simp only [here] at h
    obtain ⟨rfl, _⟩ := Prod.mk.inj (Option.some.inj h)
    rfl
  | none =>
    cases field : s.table.findField? s.place.cls x with
    | some r =>
      simp only [here, field] at h
      split at h
      · cases h
      · obtain ⟨rfl, _⟩ := Prod.mk.inj (Option.some.inj h)
        rfl
    | none =>
      simp only [here, field] at h
      split at h <;> cases h

/-- A read is reported if the variable is not marked. -/
theorem checkInitialized_findings {s : Scope} (proper : s.place.Proper) {line : Nat} {x : Name}
    {v : VarRef} {ty : Ty} (resolved : (s.resolve line x).value = some (v, ty)) :
    (s.checkInitialized line x v).findings = (s.reads line x).flatMap (unmarked s.table) := by
  rw [Scope.reads, Scope.denotes?_of_resolve resolved, Scope.checkInitialized]
  simp only [Option.map_some, Option.toList_some, List.flatMap_singleton, unmarked,
    proper.flag_variable]
  split <;> rfl

section Expressions
variable {s s₀ : Scope}

/-- The reads in an expression that are reported. -/
def early (s : Scope) (e : Expr Unit) : List Finding := (e.reads s).flatMap (unmarked s.table)

theorem early_eq (s : Scope) (e : Expr Unit) :
    early s e = e.all.flatMap fun e => (s.readsAt e).flatMap (unmarked s.table) := by
  rw [early, Expr.reads, List.flatMap_assoc]

def earlyArgs (s : Scope) (es : List (Expr Unit)) : List Finding :=
  (allArgs es).flatMap fun e => (s.readsAt e).flatMap (unmarked s.table)

/-- In an expression that is not a name, the reads are those in its parts. -/
theorem early_node {line : Nat} {form : ExprForm Unit} (own : s.readsAt (.node line () form) = []) :
    early s (.node line () form) =
      form.all.flatMap fun e => (s.readsAt e).flatMap (unmarked s.table) := by
  rw [early_eq, Expr.all, List.flatMap_cons, own]
  rfl

theorem early_binary {line : Nat} {op : BinOp} {a b : Expr Unit} :
    early s (.node line () (.binary op a b)) = early s a ++ early s b := by
  rw [early_node rfl, ExprForm.all, List.flatMap_append, early_eq, early_eq]

theorem early_lookup {line : Nat} {a b : Expr Unit} :
    early s (.node line () (.lookup a b)) = early s a ++ early s b := by
  rw [early_node rfl, ExprForm.all, List.flatMap_append, early_eq, early_eq]

theorem early_send {line : Nat} {a : Expr Unit} {m : Name} {args : List (Expr Unit)} :
    early s (.node line () (.send a m args)) = early s a ++ earlyArgs s args := by
  rw [early_node rfl, ExprForm.all, List.flatMap_append, early_eq, earlyArgs]

theorem earlyArgs_cons {a : Expr Unit} {args : List (Expr Unit)} :
    earlyArgs s (a :: args) = early s a ++ earlyArgs s args := by
  rw [earlyArgs, allArgs, List.flatMap_append, early_eq, earlyArgs]

theorem early_name {line : Nat} {x : Name} :
    early s (.node line () (.name x)) = (s.reads line x).flatMap (unmarked s.table) := by
  rw [early_eq, Expr.all, ExprForm.all, List.flatMap_singleton]
  rfl

/-- An operand of a fixed type, and what is said of the type. -/
theorem operand_early {e : Expr Unit} {line : Nat} {ty : Ty} {error : Ty → SemanticError}
    (fault : ∀ ty, Typing.Fault (error ty))
    (operand : OnlyUninitialized (typeExpr s e).findings → (typeExpr s e).findings = early s e)
    (only : OnlyUninitialized
      ((typeExpr s e).findings ++ (expect line (typeExpr s e).value ty error).findings)) :
    (typeExpr s e).findings ++ (expect line (typeExpr s e).value ty error).findings =
      early s e := by
  obtain ⟨first, rest⟩ := onlyUninitialized_append.mp only
  rw [operand first, (expect_faults line _ ty fault).eq_nil rest, List.append_nil]

/-- The index of an array without elements is not looked at, but then there is a fault. -/
theorem lookup_early (forest : s₀.table.Forest) (h : Typing.Remarked s s₀) {line : Nat}
    {a i : Expr Unit}
    (ha : OnlyUninitialized (typeExpr s a).findings → (typeExpr s a).findings = early s a)
    (hi : OnlyUninitialized (typeExpr s i).findings → (typeExpr s i).findings = early s i) :
    OnlyUninitialized (typeForm s line (.lookup a i)).findings →
      (typeForm s line (.lookup a i)).findings = early s (.node line () (.lookup a i)) := by
  have clean := (Typing.typeExpr_typed forest h a).clean
  have element := Typing.elementTy_clean line (typeExpr s a).value
  rw [typeForm, early_lookup]
  simp only [Found.findings_bind, onlyUninitialized_append]
  rintro ⟨onlyA, onlyElement, rest⟩
  have noted := clean.mp onlyA
  rw [ha onlyA, (elementTy_faults line _).eq_nil onlyElement, List.nil_append]
  -- an array that has a type without elements would have been reported
  rcases element.mp onlyElement with some | none
  · obtain ⟨ty, hty⟩ := Option.isSome_iff_exists.mp some
    simp only [hty, Found.findings_bind, Found.findings_pure, List.append_nil] at rest ⊢
    rw [operand_early (fun ty x => by simp) hi rest]
  · rw [none] at noted
    cases noted

/-- Without a fault the method has been found, so the arguments have been looked at. -/
theorem send_early (forest : s₀.table.Forest) (h : Typing.Remarked s s₀) {line : Nat}
    {r : Expr Unit} {m : Name} {args : List (Expr Unit)}
    (hr : OnlyUninitialized (typeExpr s r).findings → (typeExpr s r).findings = early s r)
    (hargs : ∀ tys, OnlyUninitialized (typeArgs s line m 1 tys args).findings →
      (typeArgs s line m 1 tys args).findings = earlyArgs s args) :
    OnlyUninitialized (typeForm s line (.send r m args)).findings →
      (typeForm s line (.send r m args)).findings = early s (.node line () (.send r m args)) := by
  have clean := (Typing.typeExpr_typed forest h r).clean
  rw [typeForm, early_send]
  simp only [Found.findings_bind, onlyUninitialized_append]
  rintro ⟨onlyR, rest⟩
  rw [hr onlyR]
  obtain ⟨info, hinfo⟩ := Option.isSome_iff_exists.mp (clean.mp onlyR)
  simp only [hinfo, Found.findings_bind, onlyUninitialized_append] at rest ⊢
  obtain ⟨onlyCallee, rest⟩ := rest
  rw [(callee_faults s line info.ty m).eq_nil onlyCallee, List.nil_append]
  have callee := (Typing.callee_decides forest h line info.ty m).clean.mp onlyCallee
  obtain ⟨⟨ref, k⟩, hk⟩ := Option.isSome_iff_exists.mp callee
  simp only [hk] at rest ⊢
  by_cases len : k.paramTys.length = args.length
  · simp only [if_pos len, Found.findings_bind, Found.findings_pure, List.append_nil] at rest ⊢
    rw [hargs k.paramTys rest]
  · have fault : Typing.Fault (.argCountMismatch m k.paramTys.length args.length) := by
      intro x
      simp
    simp only [if_neg len, Found.findings_bind, Found.findings_pure, List.append_nil,
      findings_report] at rest
    exact absurd rest (fault.not_uninitialized line)

mutual

/-- A well-typed expression reports the reads of unmarked variables, from left to right. -/
theorem typeExpr_early (forest : s₀.table.Forest) (h : Typing.Remarked s s₀)
    (proper : s.place.Proper) :
    ∀ e : Expr Unit, OnlyUninitialized (typeExpr s e).findings →
      (typeExpr s e).findings = early s e
  | .node line _ form => by
    rw [typeExpr, Found.findings_bind, Found.findings_pure, List.append_nil]
    exact typeForm_early forest h proper line form

theorem typeForm_early (forest : s₀.table.Forest) (h : Typing.Remarked s s₀)
    (proper : s.place.Proper) (line : Nat) :
    ∀ form : ExprForm Unit, OnlyUninitialized (typeForm s line form).findings →
      (typeForm s line form).findings = early s (.node line () form)
  | .binary op a b => by
    have ha := typeExpr_early forest h proper a
    have hb := typeExpr_early forest h proper b
    rw [typeForm, early_binary]
    simp only [Found.findings_bind, Found.findings_pure, List.append_nil, onlyUninitialized_append]
    rintro ⟨onlyA, onlyB, rest⟩
    rw [ha onlyA, hb onlyB, (typeBinary_faults line op _ _).eq_nil rest, List.append_nil]
  | .lookup a i =>
    lookup_early forest h (typeExpr_early forest h proper a) (typeExpr_early forest h proper i)
  | .length a => by
    have ha := typeExpr_early forest h proper a
    rw [typeForm, early_node rfl, ExprForm.all, ← early_eq]
    simp only [Found.findings_bind, Found.findings_pure, List.append_nil, onlyUninitialized_append]
    rintro ⟨onlyA, rest⟩
    rw [ha onlyA, (elementTy_faults line _).eq_nil rest, List.append_nil]
  | .send r m args =>
    send_early forest h (typeExpr_early forest h proper r) fun tys =>
      typeArgs_early forest h proper line m 1 tys args
  | .int _ => by
    rw [typeForm]
    exact fun _ => rfl
  | .tt => by
    rw [typeForm]
    exact fun _ => rfl
  | .ff => by
    rw [typeForm]
    exact fun _ => rfl
  | .name x => by
    have resolve := (Typing.resolve_decides forest h line x).clean
    rw [typeForm, early_name]
    simp only [Found.findings_bind, onlyUninitialized_append]
    rintro ⟨onlyName, rest⟩
    obtain ⟨⟨v, ty⟩, hv⟩ := Option.isSome_iff_exists.mp (resolve.mp onlyName)
    rw [(resolve_faults s line x).eq_nil onlyName, List.nil_append]
    simp only [hv, Found.findings_bind, Found.findings_pure, List.append_nil]
    exact checkInitialized_findings proper hv
  | .this => by
    rw [typeForm]
    intro only
    have fault : Typing.Fault .thisInMain := by
      intro x
      simp
    cases hm : s.place.method with
    | none =>
      simp only [hm, Found.findings_bind, Found.findings_pure, List.append_nil,
        findings_report] at only
      exact absurd only (fault.not_uninitialized line)
    | some r => rfl
  | .newIntArray n => by
    have hn := typeExpr_early forest h proper n
    rw [typeForm, early_node rfl, ExprForm.all, ← early_eq]
    simp only [Found.findings_bind, Found.findings_pure, List.append_nil]
    exact operand_early (fun ty x => by simp) hn
  | .newBooleanArray n => by
    have hn := typeExpr_early forest h proper n
    rw [typeForm, early_node rfl, ExprForm.all, ← early_eq]
    simp only [Found.findings_bind, Found.findings_pure, List.append_nil]
    exact operand_early (fun ty x => by simp) hn
  | .newObject x => by
    rw [typeForm, Found.findings_bind, Found.findings_pure, List.append_nil]
    exact (instantiate_faults s line x).eq_nil
  | .not e => by
    have he := typeExpr_early forest h proper e
    rw [typeForm, early_node rfl, ExprForm.all, ← early_eq]
    simp only [Found.findings_bind, Found.findings_pure, List.append_nil]
    exact operand_early (fun ty x => by simp) he
  | .bracket e => by
    have he := typeExpr_early forest h proper e
    rw [typeForm, early_node rfl, ExprForm.all, ← early_eq]
    simp only [Found.findings_bind, Found.findings_pure, List.append_nil]
    exact he

theorem typeArgs_early (forest : s₀.table.Forest) (h : Typing.Remarked s s₀)
    (proper : s.place.Proper) (line : Nat) (m : Name) (position : Nat) (tys : List Ty) :
    ∀ es : List (Expr Unit), OnlyUninitialized (typeArgs s line m position tys es).findings →
      (typeArgs s line m position tys es).findings = earlyArgs s es
  | [] => by
    rw [typeArgs]
    exact fun _ => rfl
  | e :: es => by
    have he := typeExpr_early forest h proper e
    rw [typeArgs, earlyArgs_cons]
    simp only [Found.findings_bind, Found.findings_pure, List.append_nil, onlyUninitialized_append]
    rintro ⟨onlyE, onlyFit, rest⟩
    rw [he onlyE, (checkArg_faults s line m position _ _).eq_nil onlyFit, List.nil_append,
      typeArgs_early forest h proper line m (position + 1) tys.tail es rest]

end

end Expressions

end MiniJava
