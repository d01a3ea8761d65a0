import MiniJava.Proofs.Names.Occurrences

/-!
# What is reported of a name

Of the errors at the line of an occurrence, those about names come from the lookup of the name that
stands there and from nothing else. Whether it is looked up at all, and in which scope, does not
depend on the name.
-/
namespace MiniJava

open Check

/-- The name stands for nothing of its kind, or for something that cannot be used there. -/
def SemanticError.isAboutName : SemanticError → Bool
  | unknownType .. | unknownIdentifier .. | unknownMethod .. | mainParamUsed _
  | cannotInstantiateMainClass _ => true
  | _ => false

def SemanticError.hint? : SemanticError → Option Name
  | unknownType _ hint | unknownIdentifier _ hint | unknownMethod _ _ hint => hint
  | _ => none

def nameErrorsAt (n : Nat) (fs : List Finding) : List Finding :=
  fs.filter fun f => f.line == n && f.error.isAboutName

/-- How a name is looked up; a method is looked up for a receiver of some type. -/
inductive Lookup where
  | type
  | var
  | created
  | method (receiver : Ty)
  deriving DecidableEq, Repr

namespace Lookup

def kind : Lookup → NameKind
  | .type => .type
  | .var => .var
  | .created => .created
  | .method _ => .method

/-- Whether the name is found, and what is reported of it. -/
def run (s : Scope) (line : Nat) (x : Name) : Lookup → Found Bool
  | .type => do
    checkTy s.table line (.object x)
    return (s.table.find? x).isSome
  | .var => do
    let found ← s.resolve line x
    return found.isSome
  | .created => do
    let found ← s.instantiate line x
    return found.isSome
  | .method receiver => do
    let found ← s.callee line receiver x
    return found.isSome

section Run
variable {s : Scope} {line : Nat} {x : Name} {receiver : Ty}

@[simp] theorem value_type : (type.run s line x).value = (s.table.find? x).isSome := rfl

@[simp] theorem value_var : (var.run s line x).value = (s.resolve line x).value.isSome := rfl

@[simp] theorem value_created :
    (created.run s line x).value = (s.instantiate line x).value.isSome := rfl

@[simp] theorem value_method :
    ((method receiver).run s line x).value = (s.callee line receiver x).value.isSome := rfl

@[simp] theorem findings_type :
    (type.run s line x).findings = (checkTy s.table line (.object x)).findings :=
  List.append_nil _

@[simp] theorem findings_var : (var.run s line x).findings = (s.resolve line x).findings :=
  List.append_nil _

@[simp] theorem findings_created :
    (created.run s line x).findings = (s.instantiate line x).findings := List.append_nil _

@[simp] theorem findings_method :
    ((method receiver).run s line x).findings = (s.callee line receiver x).findings :=
  List.append_nil _

end Run

end Lookup

/-- There is no error about a name at the line. -/
def Quiet (n : Nat) (fs : List Finding) : Prop := nameErrorsAt n fs = []

section Quiet
variable {n : Nat} {f : Finding} {fs gs : List Finding}

theorem nameErrorsAt_append (n : Nat) (fs gs : List Finding) :
    nameErrorsAt n (fs ++ gs) = nameErrorsAt n fs ++ nameErrorsAt n gs :=
  List.filter_append ..

@[simp] theorem quiet_nil : Quiet n [] := rfl

@[simp] theorem quiet_append : Quiet n (fs ++ gs) ↔ Quiet n fs ∧ Quiet n gs := by
  rw [Quiet, nameErrorsAt_append, List.append_eq_nil_iff, Quiet, Quiet]

theorem nameErrorsAt_eq_self (about : ∀ f ∈ fs, f.line = n ∧ f.error.isAboutName = true) :
    nameErrorsAt n fs = fs :=
  List.filter_eq_self.mpr fun f hf => by simp [about f hf]

theorem quiet_iff : Quiet n fs ↔ ∀ f ∈ fs, f.line = n → f.error.isAboutName = false := by
  simp only [Quiet, nameErrorsAt, List.filter_eq_nil_iff, Bool.and_eq_true, beq_iff_eq, not_and,
    Bool.not_eq_true]

@[simp] theorem quiet_singleton : Quiet n [f] ↔ (f.line = n → f.error.isAboutName = false) := by
  rw [quiet_iff, List.forall_mem_singleton]

end Quiet

section Checks
variable (s : Scope) {n : Nat} (line : Nat)

theorem checkInitialized_quiet (x : Name) (v : VarRef) :
    Quiet n (s.checkInitialized line x v).findings := by
  refine quiet_iff.mpr fun f hf _ => ?_
  obtain rfl := mem_checkInitialized hf
  rfl

theorem expect_quiet (e : Expr Note) (ty : Ty) {error : Ty → SemanticError}
    (other : ∀ ty, (error ty).isAboutName = false) : Quiet n (expect line e ty error).findings := by
  refine quiet_iff.mpr fun f hf _ => ?_
  obtain ⟨found, rfl⟩ := mem_expect hf
  exact other found

theorem typeBinary_quiet (op : BinOp) (a b : Expr Note) :
    Quiet n (typeBinary line op a b).findings := by
  refine quiet_iff.mpr fun f hf _ => ?_
  obtain ⟨l, r, rfl⟩ := mem_typeBinary hf
  rfl

theorem elementTy_quiet (e : Expr Note) : Quiet n (elementTy line e).findings := by
  refine quiet_iff.mpr fun f hf _ => ?_
  obtain ⟨ty, rfl⟩ := mem_elementTy hf
  rfl

theorem checkArg_quiet (m : Name) (position : Nat) (ty : Ty) (e : Expr Note) :
    Quiet n (checkArg s line m position ty e).findings := by
  refine quiet_iff.mpr fun f hf _ => ?_
  obtain ⟨found, rfl⟩ := mem_checkArg hf
  rfl

theorem checkStored_quiet (t : ClassTable) (ty : Ty) (e : Expr Note) :
    Quiet n (checkStored t line ty e).findings := by
  refine quiet_iff.mpr fun f hf _ => ?_
  obtain ⟨found, rfl⟩ := mem_checkStored hf
  rfl

theorem checkReturned_quiet (t : ClassTable) (ref : MethodRef) (e : Expr Note) :
    Quiet n (checkReturned t ref e).findings := by
  refine quiet_iff.mpr fun f hf _ => ?_
  obtain ⟨m, ty, found, rfl⟩ := mem_checkReturned hf
  rfl

variable {line} (other : line ≠ n)
include other

theorem resolve_quiet (x : Name) : Quiet n (s.resolve line x).findings := by
  refine quiet_iff.mpr fun f hf same => absurd same ?_
  rcases mem_resolve hf with rfl | rfl <;> exact other

theorem instantiate_quiet (x : Name) : Quiet n (s.instantiate line x).findings := by
  refine quiet_iff.mpr fun f hf same => absurd same ?_
  rcases mem_instantiate hf with rfl | rfl <;> exact other

theorem callee_quiet (ty : Ty) (x : Name) : Quiet n (s.callee line ty x).findings := by
  refine quiet_iff.mpr fun f hf same => absurd same ?_
  rcases mem_callee hf with ⟨_, rfl⟩ | ⟨c, _, rfl⟩ <;> exact other

end Checks

/-- What is found of a message when its receiver has been typed and its method has been found. -/
def sent (s : Scope) (line : Nat) (m : Name) (args : List (Expr Unit)) :
    Option (MethodRef × Method) → List Finding
  | none => []
  | some (_, method) =>
    if method.paramTys.length = args.length then
      (typeArgs s line m 1 method.paramTys args).findings
    else [⟨line, .argCountMismatch m method.paramTys.length args.length⟩]

theorem findings_send (s : Scope) (line : Nat) (r : Expr Unit) (m : Name)
    (args : List (Expr Unit)) :
    (typeForm s line (.send r m args)).findings = (typeExpr s r).findings ++
      match (typeExpr s r).value.note with
      | none => []
      | some info => (s.callee line info.ty m).findings ++
          sent s line m args (s.callee line info.ty m).value := by
  rw [typeForm, Found.findings_bind]
  cases (typeExpr s r).value.note with
  | none => rfl
  | some info =>
    simp only [Found.findings_bind]
    cases (s.callee line info.ty m).value with
    | none => rfl
    | some found =>
      simp only [sent]
      split
      · simp only [Found.findings_bind, Found.findings_pure, List.append_nil]
      · rfl

theorem sent_quiet {s : Scope} {n line : Nat} {m : Name} {args : List (Expr Unit)}
    (quiet : ∀ tys, Quiet n (typeArgs s line m 1 tys args).findings) :
    ∀ found, Quiet n (sent s line m args found)
  | none => quiet_nil
  | some (_, method) => by
    rw [sent]
    split
    · exact quiet method.paramTys
    · simp [SemanticError.isAboutName]

section Expressions
variable (s : Scope) {n : Nat}

mutual

theorem typeExpr_quiet :
    ∀ e : Expr Unit, n ∉ e.occurrences.map (·.line) → Quiet n (typeExpr s e).findings
  | .node line _ form => fun free => by
    rw [typeExpr, Found.findings_bind, Found.findings_pure, List.append_nil]
    exact typeForm_quiet line form free

theorem typeForm_quiet (line : Nat) :
    ∀ form : ExprForm Unit, n ∉ (form.occurrences line).map (·.line) →
      Quiet n (typeForm s line form).findings
  | .binary op a b => by
    rw [ExprForm.occurrences, List.map_append, List.mem_append, not_or]
    rintro ⟨ha, hb⟩
    simp only [typeForm, Found.findings_bind, Found.findings_pure, List.append_nil, quiet_append]
    exact ⟨typeExpr_quiet a ha, typeExpr_quiet b hb, typeBinary_quiet line op _ _⟩
  | .lookup a i => by
    rw [ExprForm.occurrences, List.map_append, List.mem_append, not_or]
    rintro ⟨ha, hi⟩
    simp only [typeForm, Found.findings_bind, quiet_append]
    refine ⟨typeExpr_quiet a ha, elementTy_quiet line _, ?_⟩
    split
    · exact quiet_nil
    · simp only [Found.findings_bind, Found.findings_pure, List.append_nil, quiet_append]
      exact ⟨typeExpr_quiet i hi, expect_quiet line _ _ fun _ => rfl⟩
  | .length a => fun free => by
    simp only [typeForm, Found.findings_bind, Found.findings_pure, List.append_nil, quiet_append]
    exact ⟨typeExpr_quiet a free, elementTy_quiet line _⟩
  | .send r m args => by
    rw [ExprForm.occurrences, List.map_cons, List.map_append, List.mem_cons, List.mem_append,
      not_or, not_or]
    rintro ⟨hm, hr, hargs⟩
    rw [findings_send, quiet_append]
    refine ⟨typeExpr_quiet r hr, ?_⟩
    split
    · exact quiet_nil
    · exact quiet_append.mpr ⟨callee_quiet s (Ne.symm hm) _ m, sent_quiet (fun tys =>
        typeArgs_quiet line m 1 tys args hargs) _⟩
  | .int _ => fun _ => quiet_nil
  | .tt => fun _ => quiet_nil
  | .ff => fun _ => quiet_nil
  | .name x => fun free => by
    have other : line ≠ n := Ne.symm (List.ne_of_not_mem_cons free)
    simp only [typeForm, Found.findings_bind, quiet_append]
    refine ⟨resolve_quiet s other x, ?_⟩
    split
    · exact quiet_nil
    · simp only [Found.findings_bind, Found.findings_pure, List.append_nil]
      exact checkInitialized_quiet s line x _
  | .this => fun _ => by
    rw [typeForm]
    split <;> simp [SemanticError.isAboutName]
  | .newIntArray e => fun free => by
    simp only [typeForm, Found.findings_bind, Found.findings_pure, List.append_nil, quiet_append]
    exact ⟨typeExpr_quiet e free, expect_quiet line _ _ fun _ => rfl⟩
  | .newBooleanArray e => fun free => by
    simp only [typeForm, Found.findings_bind, Found.findings_pure, List.append_nil, quiet_append]
    exact ⟨typeExpr_quiet e free, expect_quiet line _ _ fun _ => rfl⟩
  | .newObject x => fun free => by
    have other : line ≠ n := Ne.symm (List.ne_of_not_mem_cons free)
    simp only [typeForm, Found.findings_bind, Found.findings_pure, List.append_nil]
    exact instantiate_quiet s other x
  | .not e => fun free => by
    simp only [typeForm, Found.findings_bind, Found.findings_pure, List.append_nil, quiet_append]
    exact ⟨typeExpr_quiet e free, expect_quiet line _ _ fun _ => rfl⟩
  | .bracket e => fun free => by
    simp only [typeForm, Found.findings_bind, Found.findings_pure, List.append_nil]
    exact typeExpr_quiet e free

theorem typeArgs_quiet (line : Nat) (m : Name) (position : Nat) (tys : List Ty) :
    ∀ es : List (Expr Unit), n ∉ (argOccurrences es).map (·.line) →
      Quiet n (typeArgs s line m position tys es).findings
  | [] => fun _ => quiet_nil
  | e :: es => by
    rw [argOccurrences, List.map_append, List.mem_append, not_or]
    rintro ⟨he, hes⟩
    simp only [typeArgs, Found.findings_bind, Found.findings_pure, List.append_nil, quiet_append]
    exact ⟨typeExpr_quiet e he, checkArg_quiet s line m position _ _,
      typeArgs_quiet line m (position + 1) tys.tail es hes⟩

end

end Expressions

/-- What is said at a line as the name there varies: nothing of the name if it is not looked up, else
what its lookup says. -/
def Asked (s : Scope) (kind : NameKind) (line : Nat) (said : Name → List Finding) : Prop :=
  (∀ z, Quiet line (said z)) ∨
    ∃ l : Lookup, l.kind = kind ∧ ∀ z, nameErrorsAt line (said z) = (l.run s line z).findings

section Asked
variable {s : Scope} {kind : NameKind} {line : Nat} {said rest : Name → List Finding}

theorem Asked.before (h : Asked s kind line said) (quiet : ∀ z, Quiet line (rest z)) :
    Asked s kind line fun z => said z ++ rest z := by
  rcases h with silent | ⟨l, hl, asked⟩
  · exact Or.inl fun z => quiet_append.mpr ⟨silent z, quiet z⟩
  · refine Or.inr ⟨l, hl, fun z => ?_⟩
    rw [nameErrorsAt_append, quiet z, List.append_nil, asked]

theorem Asked.after (h : Asked s kind line said) (quiet : ∀ z, Quiet line (rest z)) :
    Asked s kind line fun z => rest z ++ said z := by
  rcases h with silent | ⟨l, hl, asked⟩
  · exact Or.inl fun z => quiet_append.mpr ⟨quiet z, silent z⟩
  · refine Or.inr ⟨l, hl, fun z => ?_⟩
    rw [nameErrorsAt_append, quiet z, List.nil_append, asked]

theorem Asked.quiet (quiet : ∀ z, Quiet line (said z)) : Asked s kind line said := Or.inl quiet

end Asked

section Lines
variable {os os' : List Occurrence} {o : Occurrence} {n : Nat} {z : Name}

/-- An occurrence in the first part is not at a line of the second. -/
theorem line_free_right (nodup : ((os ++ os').map (·.line)).Nodup) (ho : o ∈ os) :
    o.line ∉ os'.map (·.line) := by
  rw [List.map_append, List.nodup_append] at nodup
  exact fun other => nodup.2.2 _ (List.mem_map_of_mem ho) _ other rfl

theorem line_free_left (nodup : ((os ++ os').map (·.line)).Nodup) (ho : o ∈ os') :
    o.line ∉ os.map (·.line) := by
  rw [List.map_append, List.nodup_append] at nodup
  exact fun other => nodup.2.2 _ other _ (List.mem_map_of_mem ho) rfl

theorem nodup_left (nodup : ((os ++ os').map (·.line)).Nodup) : (os.map (·.line)).Nodup := by
  rw [List.map_append] at nodup
  exact (List.nodup_append.mp nodup).1

theorem nodup_right (nodup : ((os ++ os').map (·.line)).Nodup) : (os'.map (·.line)).Nodup := by
  rw [List.map_append] at nodup
  exact (List.nodup_append.mp nodup).2.1

/-- A line that is free in a list is free in every part of it. -/
theorem line_free_of_mem {α : Type} {as : List α} {f : α → List Occurrence}
    (free : n ∉ (as.flatMap f).map (·.line)) {a : α} (ha : a ∈ as) : n ∉ (f a).map (·.line) := by
  rw [List.map_flatMap] at free
  exact fun taken => free (List.mem_flatMap.mpr ⟨a, ha, taken⟩)

theorem ne_line_of_free (free : n ∉ os.map (·.line)) (ho : o ∈ os) : n ≠ o.line := by
  rintro rfl
  exact free (List.mem_map_of_mem ho)

theorem length_renameArgs (es : List (Expr Unit)) : (renameArgs n z es).length = es.length := by
  induction es with
  | nil => rfl
  | cons e es ih => exact congrArg (· + 1) ih

theorem rename_of_free {e : Expr Unit} (free : n ∉ e.occurrences.map (·.line)) :
    e.rename n z = e := e.rename_eq_self (bears_of_not_mem free)

theorem renameArgs_of_free {es : List (Expr Unit)}
    (free : n ∉ (argOccurrences es).map (·.line)) : renameArgs n z es = es :=
  renameArgs_eq_self es (bears_of_not_mem free)

end Lines

section Lookups
variable {s : Scope} {line : Nat} {rest : Name → List Finding}

theorem nameErrorsAt_resolve (x : Name) :
    nameErrorsAt line (s.resolve line x).findings = (Lookup.var.run s line x).findings := by
  rw [Lookup.findings_var]
  refine nameErrorsAt_eq_self fun f hf => ?_
  rcases mem_resolve hf with rfl | rfl <;> exact ⟨rfl, rfl⟩

theorem nameErrorsAt_instantiate (x : Name) :
    nameErrorsAt line (s.instantiate line x).findings = (Lookup.created.run s line x).findings := by
  rw [Lookup.findings_created]
  refine nameErrorsAt_eq_self fun f hf => ?_
  rcases mem_instantiate hf with rfl | rfl <;> exact ⟨rfl, rfl⟩

theorem nameErrorsAt_checkTy (x : Name) :
    nameErrorsAt line (checkTy s.table line (.object x)).findings =
      (Lookup.type.run s line x).findings := by
  rw [Lookup.findings_type]
  refine nameErrorsAt_eq_self fun f hf => ?_
  obtain ⟨y, rfl⟩ := mem_checkTy hf
  exact ⟨rfl, rfl⟩

/-- A method is looked up only if the receiver is an object of a class. -/
theorem callee_asked (ty : Ty) : Asked s .method line fun x => (s.callee line ty x).findings := by
  cases receiver : ty.className?.bind s.table.find? with
  | none =>
    refine .quiet fun x => quiet_iff.mpr fun f hf _ => ?_
    rcases mem_callee hf with ⟨_, rfl⟩ | ⟨c, known, _⟩
    · rfl
    · rw [receiver] at known
      cases known
  | some c =>
    refine Or.inr ⟨.method ty, rfl, fun x => ?_⟩
    rw [Lookup.findings_method]
    refine nameErrorsAt_eq_self fun f hf => ?_
    rcases mem_callee hf with ⟨unknown, _⟩ | ⟨d, _, rfl⟩
    · rw [receiver] at unknown
      cases unknown
    · exact ⟨rfl, rfl⟩

theorem resolve_asked : Asked s .var line fun x => (s.resolve line x).findings :=
  Or.inr ⟨.var, rfl, nameErrorsAt_resolve⟩

theorem instantiate_asked : Asked s .created line fun x => (s.instantiate line x).findings :=
  Or.inr ⟨.created, rfl, nameErrorsAt_instantiate⟩

theorem sent_asked {o : Occurrence} {m : Name} {args : List (Expr Unit)}
    (asked : ∀ tys, Asked s o.kind o.line
      fun z => (typeArgs s line m 1 tys (renameArgs o.line z args)).findings) :
    ∀ found, Asked s o.kind o.line fun z => sent s line m (renameArgs o.line z args) found
  | none => .quiet fun z => quiet_nil
  | some (_, method) => by
    simp only [sent, length_renameArgs]
    split
    · exact asked method.paramTys
    · exact .quiet fun z => by simp [SemanticError.isAboutName]

end Lookups

section Expressions
variable (s : Scope) {o : Occurrence}

/-- Whether the index is looked at does not depend on a name in it. -/
theorem lookup_asked {line : Nat} {a i : Expr Unit}
    (ha : (a.occurrences.map (·.line)).Nodup → o ∈ a.occurrences →
      Asked s o.kind o.line fun z => (typeExpr s (a.rename o.line z)).findings)
    (hi : (i.occurrences.map (·.line)).Nodup → o ∈ i.occurrences →
      Asked s o.kind o.line fun z => (typeExpr s (i.rename o.line z)).findings)
    (nodup : ((a.occurrences ++ i.occurrences).map (·.line)).Nodup)
    (ho : o ∈ a.occurrences ++ i.occurrences) :
    Asked s o.kind o.line
      fun z => (typeForm s line ((ExprForm.lookup a i).rename o.line z line)).findings := by
  simp only [ExprForm.rename, typeForm, Found.findings_bind]
  rcases List.mem_append.mp ho with inA | inI
  · have free := line_free_right nodup inA
    refine (ha (nodup_left nodup) inA).before fun z => ?_
    refine quiet_append.mpr ⟨elementTy_quiet line _, ?_⟩
    rw [rename_of_free free]
    split
    · exact quiet_nil
    · simp only [Found.findings_bind, Found.findings_pure, List.append_nil, quiet_append]
      exact ⟨typeExpr_quiet s i free, expect_quiet line _ _ fun _ => rfl⟩
  · have free := line_free_left nodup inI
    simp only [rename_of_free free]
    refine Asked.after (Asked.after ?_ fun z => elementTy_quiet line _)
      fun z => typeExpr_quiet s a free
    cases (elementTy line (typeExpr s a).value).value with
    | none => exact .quiet fun z => quiet_nil
    | some ty =>
      simp only [Found.findings_bind, Found.findings_pure, List.append_nil]
      exact (hi (nodup_right nodup) inI).before fun z =>
        expect_quiet line _ _ fun _ => rfl

/-- Neither the receiver nor the method that it calls depends on a name in the arguments. -/
theorem send_asked {line : Nat} {r : Expr Unit} {m : Name} {args : List (Expr Unit)}
    (hr : (r.occurrences.map (·.line)).Nodup → o ∈ r.occurrences →
      Asked s o.kind o.line fun z => (typeExpr s (r.rename o.line z)).findings)
    (hargs : ∀ tys, ((argOccurrences args).map (·.line)).Nodup → o ∈ argOccurrences args →
      Asked s o.kind o.line
        fun z => (typeArgs s line m 1 tys (renameArgs o.line z args)).findings)
    (nodup : (((ExprForm.send r m args).occurrences line).map (·.line)).Nodup)
    (ho : o ∈ (ExprForm.send r m args).occurrences line) :
    Asked s o.kind o.line
      fun z => (typeForm s line ((ExprForm.send r m args).rename o.line z line)).findings := by
  simp only [ExprForm.rename, findings_send]
  obtain ⟨own, inner⟩ := List.nodup_cons.mp nodup
  rcases List.mem_cons.mp ho with rfl | parts
  · rw [List.map_append, List.mem_append, not_or] at own
    simp only [rename_of_free own.1, renameArgs_of_free own.2, nameAt, if_true]
    refine Asked.after ?_ fun z => typeExpr_quiet s r own.1
    cases (typeExpr s r).value.note with
    | none => exact .quiet fun z => quiet_nil
    | some info =>
      exact (callee_asked info.ty).before fun z =>
        sent_quiet (fun tys => typeArgs_quiet s line z 1 tys args own.2) _
  · have other : line ≠ o.line := ne_line_of_free own parts
    simp only [nameAt, if_neg other]
    rcases List.mem_append.mp parts with inR | inArgs
    · have free := line_free_right inner inR
      refine (hr (nodup_left inner) inR).before fun z => ?_
      rw [renameArgs_of_free free]
      split
      · exact quiet_nil
      · exact quiet_append.mpr ⟨callee_quiet s other _ m, sent_quiet (fun tys =>
          typeArgs_quiet s line m 1 tys args free) _⟩
    · have free := line_free_left inner inArgs
      simp only [rename_of_free free]
      refine Asked.after ?_ fun z => typeExpr_quiet s r free
      cases (typeExpr s r).value.note with
      | none => exact .quiet fun z => quiet_nil
      | some info =>
        have asked := fun tys => hargs tys (nodup_right inner) inArgs
        exact (sent_asked asked _).after fun z => callee_quiet s other info.ty m

mutual

/-- Each occurrence in an expression is asked for once at most. -/
theorem typeExpr_asked :
    ∀ e : Expr Unit, (e.occurrences.map (·.line)).Nodup → o ∈ e.occurrences →
      Asked s o.kind o.line fun z => (typeExpr s (e.rename o.line z)).findings
  | .node line _ form => fun nodup ho => by
    simp only [Expr.rename, typeExpr, Found.findings_bind, Found.findings_pure, List.append_nil]
    exact typeForm_asked line form nodup ho

theorem typeForm_asked (line : Nat) :
    ∀ form : ExprForm Unit, ((form.occurrences line).map (·.line)).Nodup →
      o ∈ form.occurrences line →
      Asked s o.kind o.line fun z => (typeForm s line (form.rename o.line z line)).findings
  | .binary op a b => fun nodup ho => by
    simp only [ExprForm.rename, typeForm, Found.findings_bind, Found.findings_pure,
      List.append_nil]
    rcases List.mem_append.mp ho with ha | hb
    · have free := line_free_right nodup ha
      refine (typeExpr_asked a (nodup_left nodup) ha).before fun z => ?_
      rw [rename_of_free free]
      exact quiet_append.mpr ⟨typeExpr_quiet s b free, typeBinary_quiet line op _ _⟩
    · have free := line_free_left nodup hb
      refine ((typeExpr_asked b (nodup_right nodup) hb).before fun z => ?_).after fun z => ?_
      · exact typeBinary_quiet line op _ _
      · rw [rename_of_free free]
        exact typeExpr_quiet s a free
  | .lookup a i => lookup_asked s (typeExpr_asked a) (typeExpr_asked i)
  | .length a => fun nodup ho => by
    simp only [ExprForm.rename, typeForm, Found.findings_bind, Found.findings_pure,
      List.append_nil]
    exact (typeExpr_asked a nodup ho).before fun z => elementTy_quiet line _
  | .send r m args =>
    send_asked s (typeExpr_asked r) fun tys => typeArgs_asked line m 1 tys args
  | .int _ => fun _ ho => absurd ho List.not_mem_nil
  | .tt => fun _ ho => absurd ho List.not_mem_nil
  | .ff => fun _ ho => absurd ho List.not_mem_nil
  | .name x => fun _ ho => by
    obtain rfl := List.mem_singleton.mp ho
    simp only [ExprForm.rename, nameAt, if_true, typeForm, Found.findings_bind]
    refine resolve_asked.before fun z => ?_
    split
    · exact quiet_nil
    · simp only [Found.findings_bind, Found.findings_pure, List.append_nil]
      exact checkInitialized_quiet s line z _
  | .this => fun _ ho => absurd ho List.not_mem_nil
  | .newIntArray e => fun nodup ho => by
    simp only [ExprForm.rename, typeForm, Found.findings_bind, Found.findings_pure,
      List.append_nil]
    exact (typeExpr_asked e nodup ho).before fun z => expect_quiet line _ _ fun _ => rfl
  | .newBooleanArray e => fun nodup ho => by
    simp only [ExprForm.rename, typeForm, Found.findings_bind, Found.findings_pure,
      List.append_nil]
    exact (typeExpr_asked e nodup ho).before fun z => expect_quiet line _ _ fun _ => rfl
  | .newObject x => fun _ ho => by
    obtain rfl := List.mem_singleton.mp ho
    simp only [ExprForm.rename, nameAt, if_true, typeForm, Found.findings_bind,
      Found.findings_pure, List.append_nil]
    exact instantiate_asked
  | .not e => fun nodup ho => by
    simp only [ExprForm.rename, typeForm, Found.findings_bind, Found.findings_pure,
      List.append_nil]
    exact (typeExpr_asked e nodup ho).before fun z => expect_quiet line _ _ fun _ => rfl
  | .bracket e => fun nodup ho => by
    simp only [ExprForm.rename, typeForm, Found.findings_bind, Found.findings_pure,
      List.append_nil]
    exact typeExpr_asked e nodup ho

theorem typeArgs_asked (line : Nat) (m : Name) (position : Nat) (tys : List Ty) :
    ∀ es : List (Expr Unit), ((argOccurrences es).map (·.line)).Nodup →
      o ∈ argOccurrences es →
      Asked s o.kind o.line
        fun z => (typeArgs s line m position tys (renameArgs o.line z es)).findings
  | [] => fun _ ho => absurd ho List.not_mem_nil
  | e :: es => fun nodup ho => by
    simp only [renameArgs, typeArgs, Found.findings_bind, Found.findings_pure, List.append_nil]
    rcases List.mem_append.mp ho with he | hes
    · have free := line_free_right nodup he
      refine (typeExpr_asked e (nodup_left nodup) he).before fun z => ?_
      rw [renameArgs_of_free free]
      exact quiet_append.mpr ⟨checkArg_quiet s line m position _ _,
        typeArgs_quiet s line m (position + 1) tys.tail es free⟩
    · have free := line_free_left nodup hes
      refine ((typeArgs_asked line m (position + 1) tys.tail es (nodup_right nodup) hes).after
        fun z => ?_).after fun z => ?_
      · exact checkArg_quiet s line m position _ _
      · rw [rename_of_free free]
        exact typeExpr_quiet s e free

end

end Expressions

section Steps
variable (p : Place) (t : ClassTable) {n : Nat} {o : Occurrence}

theorem stored_quiet (s : Scope) (line : Nat) (x : Name) {index value : Expr Unit}
    (hi : n ∉ index.occurrences.map (·.line)) (hv : n ∉ value.occurrences.map (·.line)) :
    ∀ found, Quiet n (stored s line x index value found)
  | none => quiet_nil
  | some (v, ty) => by
    rw [stored, quiet_append]
    refine ⟨checkInitialized_quiet s line x v, ?_⟩
    split
    · simp [SemanticError.isAboutName]
    · simp only [quiet_append]
      refine ⟨typeExpr_quiet s index hi, expect_quiet line _ _ fun _ => rfl, ?_⟩
      split
      · exact quiet_append.mpr ⟨typeExpr_quiet s value hv, expect_quiet line _ _ fun _ => rfl⟩
      · exact quiet_nil

theorem lookUp_quiet (s : Step Unit) (free : n ∉ s.occurrences.map (·.line)) :
    Quiet n (lookUp p t s).findings := by
  cases s with
  | block line => exact quiet_nil
  | assign line x value =>
    obtain ⟨other, hv⟩ := not_or.mp (mt List.mem_cons.mpr free)
    simp only [lookUp, Typing.assignment, Found.findings_bind, Found.findings_pure,
      List.append_nil, quiet_append]
    refine ⟨typeExpr_quiet ⟨t, p⟩ value hv, resolve_quiet ⟨t, p⟩ (Ne.symm other) x, ?_⟩
    split
    · exact quiet_nil
    · simp only [Found.findings_bind, Found.findings_pure, List.append_nil]
      exact checkStored_quiet line t _ _
  | arrayAssign line x index value =>
    obtain ⟨other, rest⟩ := not_or.mp (mt List.mem_cons.mpr free)
    rw [List.map_append, List.mem_append, not_or] at rest
    simp only [lookUp, findings_checkArrayAssign, Found.findings_bind, Found.findings_pure,
      List.append_nil]
    exact quiet_append.mpr ⟨resolve_quiet ⟨t, p⟩ (Ne.symm other) x,
      stored_quiet ⟨t, p⟩ line x rest.1 rest.2 _⟩
  | condition line cond =>
    simp only [lookUp, Found.findings_bind, Found.findings_pure, List.append_nil, quiet_append]
    exact ⟨typeExpr_quiet ⟨t, p⟩ cond free, expect_quiet line _ _ fun _ => rfl⟩
  | print line value =>
    simp only [lookUp, Found.findings_bind, Found.findings_pure, List.append_nil, quiet_append]
    exact ⟨typeExpr_quiet ⟨t, p⟩ value free, expect_quiet line _ _ fun _ => rfl⟩
  | result value =>
    obtain ⟨cls, _ | ref⟩ := p
    · simp only [lookUp, Found.findings_bind, Found.findings_pure, List.append_nil]
      exact typeExpr_quiet _ value free
    · simp only [lookUp, Found.findings_bind, Found.findings_pure, List.append_nil, quiet_append]
      exact ⟨typeExpr_quiet _ value free, checkReturned_quiet t ref _⟩

theorem stored_asked (s : Scope) (line : Nat) (x : Name) (index value : Expr Unit)
    (nodup : ((index.occurrences ++ value.occurrences).map (·.line)).Nodup)
    (ho : o ∈ index.occurrences ++ value.occurrences) :
    ∀ found, Asked s o.kind o.line
      fun z => stored s line x (index.rename o.line z) (value.rename o.line z) found
  | none => .quiet fun z => quiet_nil
  | some (v, ty) => by
    simp only [stored]
    refine Asked.after ?_ fun z => checkInitialized_quiet s line x v
    cases ty.element? with
    | none => exact .quiet fun z => by simp [SemanticError.isAboutName]
    | some element =>
      rcases List.mem_append.mp ho with hi | hv
      · have free := line_free_right nodup hi
        refine (typeExpr_asked s index (nodup_left nodup) hi).before fun z => ?_
        rw [rename_of_free free]
        refine quiet_append.mpr ⟨expect_quiet line _ _ fun _ => rfl, ?_⟩
        split
        · exact quiet_append.mpr ⟨typeExpr_quiet s value free, expect_quiet line _ _ fun _ => rfl⟩
        · exact quiet_nil
      · have free := line_free_left nodup hv
        simp only [rename_of_free free]
        refine Asked.after (Asked.after ?_ fun z => expect_quiet line _ _ fun _ => rfl)
          fun z => typeExpr_quiet s index free
        -- whether the value is looked at does not depend on it
        split
        · exact (typeExpr_asked s value (nodup_right nodup) hv).before
            fun z => expect_quiet line _ _ fun _ => rfl
        · exact .quiet fun z => quiet_nil

/-- Each occurrence in a step is asked for once at most. -/
theorem lookUp_asked (s : Step Unit) (nodup : (s.occurrences.map (·.line)).Nodup)
    (ho : o ∈ s.occurrences) :
    Asked ⟨t, p⟩ o.kind o.line fun z => (lookUp p t (s.rename o.line z)).findings := by
  cases s with
  | block line => exact absurd ho List.not_mem_nil
  | assign line x value =>
    obtain ⟨own, inner⟩ := List.nodup_cons.mp nodup
    simp only [Step.rename, Step.onParts, lookUp, Typing.assignment, Found.findings_bind,
      Found.findings_pure, List.append_nil]
    rcases List.mem_cons.mp ho with rfl | hv
    · simp only [nameAt, if_true, rename_of_free own]
      refine (resolve_asked.before fun z => ?_).after fun z => typeExpr_quiet ⟨t, p⟩ value own
      split
      · exact quiet_nil
      · simp only [Found.findings_bind, Found.findings_pure, List.append_nil]
        exact checkStored_quiet line t _ _
    · have other : line ≠ o.line := ne_line_of_free own hv
      simp only [nameAt, if_neg other]
      refine (typeExpr_asked ⟨t, p⟩ value inner hv).before fun z => ?_
      refine quiet_append.mpr ⟨resolve_quiet ⟨t, p⟩ other x, ?_⟩
      split
      · exact quiet_nil
      · simp only [Found.findings_bind, Found.findings_pure, List.append_nil]
        exact checkStored_quiet line t _ _
  | arrayAssign line x index value =>
    obtain ⟨own, inner⟩ := List.nodup_cons.mp nodup
    simp only [Step.rename, Step.onParts, lookUp, findings_checkArrayAssign, Found.findings_bind,
      Found.findings_pure, List.append_nil]
    rcases List.mem_cons.mp ho with rfl | parts
    · rw [List.map_append, List.mem_append, not_or] at own
      simp only [nameAt, if_true, rename_of_free own.1, rename_of_free own.2]
      exact resolve_asked.before fun z => stored_quiet ⟨t, p⟩ line z own.1 own.2 _
    · have other : line ≠ o.line := ne_line_of_free own parts
      simp only [nameAt, if_neg other]
      exact (stored_asked ⟨t, p⟩ line x index value inner parts _).after
        fun z => resolve_quiet ⟨t, p⟩ other x
  | condition line cond =>
    simp only [Step.rename, Step.onParts, lookUp, Found.findings_bind, Found.findings_pure,
      List.append_nil]
    exact (typeExpr_asked ⟨t, p⟩ cond nodup ho).before fun z => expect_quiet line _ _ fun _ => rfl
  | print line value =>
    simp only [Step.rename, Step.onParts, lookUp, Found.findings_bind, Found.findings_pure,
      List.append_nil]
    exact (typeExpr_asked ⟨t, p⟩ value nodup ho).before fun z => expect_quiet line _ _ fun _ => rfl
  | result value =>
    obtain ⟨cls, _ | ref⟩ := p
    · simp only [Step.rename, Step.onParts, lookUp, Found.findings_bind, Found.findings_pure,
        List.append_nil]
      exact typeExpr_asked _ value nodup ho
    · simp only [Step.rename, Step.onParts, lookUp, Found.findings_bind, Found.findings_pure,
        List.append_nil]
      exact (typeExpr_asked _ value nodup ho).before fun z => checkReturned_quiet t ref _

end Steps

end MiniJava
