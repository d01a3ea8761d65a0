import MiniJava.Proofs.Typing.Judgment

/-!
# Checking statements

The parts of a statement that are looked up and typed together read one table, and are judged as one
computation. An assignment marks its target afterwards.
-/
namespace MiniJava.Typing

open ClassTable
open Check

section Parts
variable {t u : ClassTable} {p : Place}

theorem remarked (same : SameDeclarations u t) (p : Place) : Remarked ⟨u, p⟩ ⟨t, p⟩ :=
  ⟨same, rfl⟩

theorem exprTyped (forest : t.Forest) (same : SameDeclarations u t) (e : Expr Unit) :
    ExprTyped ⟨t, p⟩ e (typeExpr ⟨u, p⟩ e) :=
  typeExpr_typed forest (remarked same p) e

/-- An expression that has to have a certain type. -/
theorem expected_judges (forest : t.Forest) (same : SameDeclarations u t) (e : Expr Unit)
    (line : Nat) (ty : Ty) (error : Ty → SemanticError) (fault : ∀ ty, Fault (error ty)) :
    Judges (do
        let e ← typeExpr ⟨u, p⟩ e
        let _ ← expect line e ty error
        return e)
      (fun e' => e'.bare = e) (∃ r, HasType ⟨t, p⟩ e ⟨ty, r⟩) (ExprRecorded ⟨t, p⟩) := by
  have typed := exprTyped (p := p) forest same e
  have check := expect_checks line (typeExpr ⟨u, p⟩ e).value ty error fault
  have iff : (expect line (typeExpr ⟨u, p⟩ e).value ty error).value = true ↔
      ∃ r, HasType ⟨t, p⟩ e ⟨ty, r⟩ := by
    simp only [check.value, typed.note, exists_ty_iff]
  refine ⟨typed.bare, ?_, ?_⟩
  · simp only [Found.findings_bind, Found.findings_pure, List.append_nil]
    rw [clean_after typed.clean check.clean check.isSome, iff]
  · intro h
    exact typed.recorded (check.isSome (iff.mpr h))

/-- The index and the value of an assignment to an element. -/
theorem element_judges (forest : t.Forest) (same : SameDeclarations u t) (line : Nat) (element : Ty)
    (v : VarRef) (index value : Expr Unit) :
    Judges (do
        let index ← typeExpr ⟨u, p⟩ index
        if ← expect line index .int .indexMustBeInt then do
          let value ← typeExpr ⟨u, p⟩ value
          let _ ← expect line value element (.incompatibleTypes element)
          return (some v, index, value)
        else return (some v, index, blank value))
      (fun r => r.1 = some v ∧ r.2.1.bare = index ∧ r.2.2.bare = value)
      ((∃ r, HasType ⟨t, p⟩ index ⟨.int, r⟩) ∧ ∃ q, HasType ⟨t, p⟩ value ⟨element, q⟩)
      (fun r => ExprRecorded ⟨t, p⟩ r.2.1 ∧ ExprRecorded ⟨t, p⟩ r.2.2) := by
  have typed := exprTyped (p := p) forest same index
  have check := expect_checks line (typeExpr ⟨u, p⟩ index).value .int .indexMustBeInt
    fun ty y => by simp
  have clean := clean_after typed.clean check.clean check.isSome
  have iff : (expect line (typeExpr ⟨u, p⟩ index).value .int .indexMustBeInt).value = true ↔
      ∃ r, HasType ⟨t, p⟩ index ⟨.int, r⟩ := by
    simp only [check.value, typed.note, exists_ty_iff]
  have rest := expected_judges (p := p) forest same value line element
    (.incompatibleTypes element) fun ty y => by simp
  simp only [Found.bind_eq, Found.pure_eq, List.append_nil] at rest ⊢
  by_cases ok : (expect line (typeExpr ⟨u, p⟩ index).value .int .indexMustBeInt).value = true
  · simp only [if_pos ok]
    refine ⟨⟨rfl, typed.bare, rest.always⟩, ?_, ?_⟩
    · rw [← List.append_assoc, onlyUninitialized_append, clean, rest.clean, iff]
    · exact fun h => ⟨typed.recorded (check.isSome ok), rest.recorded h.2⟩
  · simp only [if_neg ok]
    refine ⟨⟨rfl, typed.bare, blank_bare value⟩, ?_, fun h => absurd (iff.mpr h.1) ok⟩
    rw [List.append_nil, clean]
    exact ⟨fun h => absurd h ok, fun h => absurd (iff.mpr h.1) ok⟩

/-- What a name stands for is decided before the rest of a statement is looked at. -/
theorem resolve_cases (forest : t.Forest) (same : SameDeclarations u t) (line : Nat) (x : Name) :
    ((Scope.resolve ⟨u, p⟩ line x).value = none ∧
        ¬ OnlyUninitialized (Scope.resolve ⟨u, p⟩ line x).findings ∧
          ∀ v ty, ¬ Denotes ⟨t, p⟩ x v ty) ∨
      ∃ v ty, (Scope.resolve ⟨u, p⟩ line x).value = some (v, ty) ∧
        OnlyUninitialized (Scope.resolve ⟨u, p⟩ line x).findings ∧
          ∀ w ty', Denotes ⟨t, p⟩ x w ty' ↔ w = v ∧ ty' = ty := by
  have resolve := resolve_decides forest (remarked same p) line x
  cases hv : (Scope.resolve ⟨u, p⟩ line x).value with
  | none =>
    refine Or.inl ⟨rfl, ?_, fun v ty hd => ?_⟩
    · rw [resolve.clean, hv]
      exact Bool.false_ne_true
    · have some := (resolve.value (v, ty)).mpr hd
      rw [hv] at some
      cases some
  | some vt =>
    refine Or.inr ⟨vt.1, vt.2, rfl, resolve.clean.mpr (by rw [hv]; rfl), fun w ty' => ?_⟩
    rw [← resolve.value (w, ty'), hv, Option.some.injEq, Prod.ext_iff]
    exact ⟨fun h => ⟨h.1.symm, h.2.symm⟩, fun h => ⟨h.1.symm, h.2.symm⟩⟩

theorem targetRecorded {x : Name} {v : VarRef} {ty : Ty}
    (denotes : ∀ w ty', Denotes ⟨t, p⟩ x w ty' ↔ w = v ∧ ty' = ty) :
    TargetRecorded ⟨t, p⟩ x (some v) :=
  ⟨v, ty, rfl, (denotes v ty).mpr ⟨rfl, rfl⟩, fun w ty' => (denotes w ty').mp⟩

theorem stmtTyped_arrayAssign {s : Scope} {line : Nat} {x : Name} {index value : Expr Unit} :
    StmtTyped s (.arrayAssign line x () index value) ↔
      ∃ v array, Denotes s x v array ∧ ∃ element, array.element? = some element ∧
        (∃ r, HasType s index ⟨.int, r⟩) ∧ ∃ q, HasType s value ⟨element, q⟩ := by
  constructor
  · intro h
    cases h with
    | arrayAssign hd harr hi he => exact ⟨_, _, hd, _, harr, ⟨_, hi⟩, _, he⟩
  · rintro ⟨v, array, hd, element, harr, ⟨r, hi⟩, q, he⟩
    exact .arrayAssign hd harr hi he

theorem arrayAssign_judges (forest : t.Forest) (same : SameDeclarations u t) (line : Nat) (x : Name)
    (index value : Expr Unit) :
    Judges (checkArrayAssign ⟨u, p⟩ line x index value)
      (fun r => r.2.1.bare = index ∧ r.2.2.bare = value)
      (StmtTyped ⟨t, p⟩ (.arrayAssign line x () index value))
      (fun r => TargetRecorded ⟨t, p⟩ x r.1 ∧ ExprRecorded ⟨t, p⟩ r.2.1 ∧
        ExprRecorded ⟨t, p⟩ r.2.2) := by
  have bare : (blank index).bare = index ∧ (blank value).bare = value :=
    ⟨blank_bare index, blank_bare value⟩
  rw [checkArrayAssign, stmtTyped_arrayAssign]
  rcases resolve_cases (p := p) forest same line x with ⟨hv, unclean, undenoted⟩ |
    ⟨v, ty, hv, clean, denotes⟩
  · have untyped : ¬ ∃ v array, Denotes ⟨t, p⟩ x v array ∧ ∃ element,
        array.element? = some element ∧ (∃ r, HasType ⟨t, p⟩ index ⟨.int, r⟩) ∧
          ∃ q, HasType ⟨t, p⟩ value ⟨element, q⟩ := fun ⟨v, array, hd, _⟩ => undenoted v array hd
    simp only [Found.bind_eq, Found.pure_eq, hv, List.append_nil]
    exact ⟨bare, ⟨fun h => absurd h unclean, fun h => absurd h untyped⟩, fun h => absurd h untyped⟩
  · have read := checkInitialized_only ⟨u, p⟩ line x v
    simp only [denotes, exists_and_left, exists_eq_left, and_assoc]
    cases hel : ty.element? with
    | none =>
      have fault : Fault (.notAnArray ty) := by intro y; simp
      simp only [Found.bind_eq, Found.pure_eq, hv, hel, List.append_nil]
      refine ⟨bare, ?_, ?_⟩
      · simp only [onlyUninitialized_append]
        refine ⟨fun h => absurd h.2.2 (fault.not_uninitialized line), ?_⟩
        rintro ⟨_, h, _⟩
        cases h
      · rintro ⟨_, h, _⟩
        cases h
    | some element =>
      have rest := element_judges (p := p) forest same line element v index value
      rw [Found.bind_eq]
      simp only [hv]
      rw [Found.bind_eq, hel]
      refine ⟨rest.always.2, ?_, ?_⟩
      · simp only [onlyUninitialized_append, rest.clean, Option.some.injEq, exists_eq_left']
        exact ⟨fun h => h.2.2, fun h => ⟨clean, read, h⟩⟩
      · rintro ⟨_, heq, typed⟩
        obtain rfl := Option.some.inj heq
        have target := targetRecorded denotes
        rw [← rest.always.1] at target
        exact ⟨target, rest.recorded typed⟩

/-- What an assignment looks up before it marks its target. -/
def assignment (u : ClassTable) (p : Place) (line : Nat) (x : Name) (value : Expr Unit) :
    Found (Target × Expr Note) := do
  let value ← typeExpr ⟨u, p⟩ value
  match ← Scope.resolve ⟨u, p⟩ line x with
  | none => return (none, value)
  | some (v, ty) => do
    checkStored u line ty value
    return (some v, value)

theorem checkAssign_eq (p : Place) (line : Nat) (x : Name) (value : Expr Unit) :
    checkAssign p line x value = (do
      let r ← take fun u => assignment u p line x value
      match r.1 with
      | none => return r
      | some v => do
        mark p v
        return r) := by
  funext st
  have left : checkAssign p line x value st =
      (match (Scope.resolve ⟨st.table, p⟩ line x).value with
      | none => pure (none, (typeExpr ⟨st.table, p⟩ value).value)
      | some (v, ty) => do
        take fun t => checkStored t line ty (typeExpr ⟨st.table, p⟩ value).value
        mark p v
        return (some v, (typeExpr ⟨st.table, p⟩ value).value) : CheckM (Target × Expr Note))
        ⟨st.table, (st.report.addAll (typeExpr ⟨st.table, p⟩ value).findings).addAll
          (Scope.resolve ⟨st.table, p⟩ line x).findings⟩ := rfl
  have right : ∀ f : Target × Expr Note → CheckM (Target × Expr Note),
      ((take fun u => assignment u p line x value) >>= f) st =
        f (assignment st.table p line x value).value
          ⟨st.table, st.report.addAll (assignment st.table p line x value).findings⟩ :=
    fun f => rfl
  rw [left, right, assignment]
  cases hv : (Scope.resolve ⟨st.table, p⟩ line x).value with
  | none =>
    simp only [Found.bind_eq, Found.pure_eq, hv, List.append_nil, Report.addAll_append]
  | some vt =>
    simp only [Found.bind_eq, Found.pure_eq, hv, List.append_nil, Report.addAll_append]
    rfl

theorem checkStored_clean (forest : t.Forest) (same : SameDeclarations u t) (line : Nat) (ty : Ty)
    (e : Expr Note) :
    OnlyUninitialized (checkStored u line ty e).findings ↔
      (∃ i, e.note = some i ∧ Assignable t ty i.ty) ∨ e.note = none := by
  unfold checkStored
  cases e.note with
  | none => simp
  | some i =>
    have hassign := (remarked same ⟨0, none⟩).assignable_iff forest ty i.ty
    by_cases ha : u.assignable ty i.ty = true
    · simp only [if_pos ha]
      simp [← hassign, ha]
    · have fault : Fault (.incompatibleTypes ty i.ty) := by intro y; simp
      simp only [if_neg ha]
      simp [← hassign, ha, fault.not_uninitialized line]

theorem stmtTyped_assign {s : Scope} {line : Nat} {x : Name} {value : Expr Unit} :
    StmtTyped s (.assign line x () value) ↔
      ∃ v ty, Denotes s x v ty ∧ ∃ i, HasType s value i ∧ Assignable s.table ty i.ty := by
  constructor
  · intro h
    cases h with
    | assign hd he ha => exact ⟨_, _, hd, _, he, ha⟩
  · rintro ⟨v, ty, hd, i, he, ha⟩
    exact .assign hd he ha

theorem assignment_judges (forest : t.Forest) (same : SameDeclarations u t) (line : Nat) (x : Name)
    (value : Expr Unit) :
    Judges (assignment u p line x value) (fun r => r.2.bare = value)
      (StmtTyped ⟨t, p⟩ (.assign line x () value))
      (fun r => TargetRecorded ⟨t, p⟩ x r.1 ∧ ExprRecorded ⟨t, p⟩ r.2) := by
  have typed := exprTyped (p := p) forest same value
  rw [assignment, stmtTyped_assign]
  rcases resolve_cases (p := p) forest same line x with ⟨hv, unclean, undenoted⟩ |
    ⟨v, ty, hv, clean, denotes⟩
  · have untyped : ¬ ∃ v ty, Denotes ⟨t, p⟩ x v ty ∧ ∃ i, HasType ⟨t, p⟩ value i ∧
        Assignable t ty i.ty := fun ⟨v, ty, hd, _⟩ => undenoted v ty hd
    simp only [Found.bind_eq, Found.pure_eq, hv, List.append_nil]
    refine ⟨typed.bare, ?_, fun h => absurd h untyped⟩
    rw [onlyUninitialized_append]
    exact ⟨fun h => absurd h.2 unclean, fun h => absurd h untyped⟩
  · have stored := checkStored_clean forest same line ty (typeExpr ⟨u, p⟩ value).value
    have noted : (∃ i, (typeExpr ⟨u, p⟩ value).value.note = some i ∧ Assignable t ty i.ty) →
        (typeExpr ⟨u, p⟩ value).value.note.isSome = true := by
      rintro ⟨i, hi, _⟩
      rw [hi]
      rfl
    have after := clean_after typed.clean stored noted
    have iff : (∃ w ty', Denotes ⟨t, p⟩ x w ty' ∧ ∃ i, HasType ⟨t, p⟩ value i ∧
        Assignable t ty' i.ty) ↔
        ∃ i, (typeExpr ⟨u, p⟩ value).value.note = some i ∧ Assignable t ty i.ty := by
      simp only [typed.note]
      constructor
      · rintro ⟨w, ty', hd, rest⟩
        obtain ⟨_, rfl⟩ := (denotes w ty').mp hd
        exact rest
      · exact fun rest => ⟨v, ty, (denotes v ty).mpr ⟨rfl, rfl⟩, rest⟩
    rw [iff]
    simp only [Found.bind_eq, Found.pure_eq, hv, List.append_nil]
    refine ⟨typed.bare, ?_, fun h => ⟨targetRecorded denotes, typed.recorded (noted h)⟩⟩
    rw [onlyUninitialized_append] at after ⊢
    rw [onlyUninitialized_append, ← after]
    exact ⟨fun h => ⟨h.1, h.2.2⟩, fun h => ⟨h.1, clean, h.2⟩⟩

theorem checkAssign_judged (forest : t.Forest) (line : Nat) (x : Name) (value : Expr Unit) :
    Judged t (checkAssign p line x value) (fun r => r.2.bare = value)
      (StmtTyped ⟨t, p⟩ (.assign line x () value))
      (fun r => TargetRecorded ⟨t, p⟩ x r.1 ∧ ExprRecorded ⟨t, p⟩ r.2) := by
  have looked := Judged.take fun u (same : SameDeclarations u t) =>
    assignment_judges (p := p) forest same line x value
  have marked : ∀ r : Target × Expr Note, r.2.bare = value →
      Judged t (match r.1 with
        | none => return r
        | some v => do
          mark p v
          return r : CheckM (Target × Expr Note)) (fun r => r.2.bare = value) True (· = r) := by
    intro r hr
    cases r.1 with
    | none => exact .pure hr rfl
    | some v =>
      have last : Judged t (return r : CheckM (Target × Expr Note)) (fun r => r.2.bare = value)
          True (· = r) := .pure hr rfl
      exact (Judged.mark.bind fun _ _ => last).congr (and_iff_left trivial).symm
        fun _ _ ⟨_, _, heq⟩ => heq
  rw [checkAssign_eq]
  exact (looked.bind marked).congr (and_iff_left trivial).symm fun _ _ ⟨_, hr, heq⟩ => heq ▸ hr

end Parts

section Statements
variable {s : Scope} {n : Nat}

theorem stmtTyped_block {body : List (Stmt Unit Unit)} :
    StmtTyped s (.block n body) ↔ BodyTyped s body :=
  ⟨fun h => (by cases h; assumption), .block⟩

theorem stmtTyped_ifElse {c : Expr Unit} {yes no : Stmt Unit Unit} :
    StmtTyped s (.ifElse n c yes no) ↔
      (∃ r, HasType s c ⟨.boolean, r⟩) ∧ StmtTyped s yes ∧ StmtTyped s no := by
  constructor
  · intro h
    cases h with
    | ifElse hc hy hn => exact ⟨⟨_, hc⟩, hy, hn⟩
  · rintro ⟨⟨r, hc⟩, hy, hn⟩
    exact .ifElse hc hy hn

theorem stmtTyped_while {c : Expr Unit} {body : Stmt Unit Unit} :
    StmtTyped s (.while n c body) ↔ (∃ r, HasType s c ⟨.boolean, r⟩) ∧ StmtTyped s body := by
  constructor
  · intro h
    cases h with
    | «while» hc hb => exact ⟨⟨_, hc⟩, hb⟩
  · rintro ⟨⟨r, hc⟩, hb⟩
    exact .while hc hb

theorem stmtTyped_print {e : Expr Unit} :
    StmtTyped s (.print n e) ↔ ∃ r, HasType s e ⟨.int, r⟩ :=
  ⟨fun h => (by cases h with | print he => exact ⟨_, he⟩), fun ⟨_, he⟩ => .print he⟩

theorem bodyTyped_cons {st : Stmt Unit Unit} {sts : List (Stmt Unit Unit)} :
    BodyTyped s (st :: sts) ↔ StmtTyped s st ∧ BodyTyped s sts := List.forall_mem_cons

theorem exprRecorded_iff {e : Expr Note} :
    (∀ x ∈ (e.items : List (Item Note Target)), ItemRecorded s x) ↔ ExprRecorded s e := by
  rw [Expr.items, List.forall_mem_map]
  rfl

theorem stmtRecorded_assign {x : Name} {v : Target} {e : Expr Note} :
    StmtRecorded s (.assign n x v e) ↔ TargetRecorded s x v ∧ ExprRecorded s e := by
  rw [StmtRecorded, Stmt.items, List.forall_mem_cons, exprRecorded_iff]
  rfl

theorem stmtRecorded_arrayAssign {x : Name} {v : Target} {i e : Expr Note} :
    StmtRecorded s (.arrayAssign n x v i e) ↔
      TargetRecorded s x v ∧ ExprRecorded s i ∧ ExprRecorded s e := by
  rw [StmtRecorded, Stmt.items, List.forall_mem_cons, List.forall_mem_append, exprRecorded_iff,
    exprRecorded_iff]
  rfl

theorem stmtRecorded_ifElse {c : Expr Note} {yes no : Stmt Note Target} :
    StmtRecorded s (.ifElse n c yes no) ↔
      ExprRecorded s c ∧ StmtRecorded s yes ∧ StmtRecorded s no := by
  rw [StmtRecorded, Stmt.items, List.forall_mem_append, List.forall_mem_append, exprRecorded_iff,
    and_assoc]
  rfl

theorem stmtRecorded_while {c : Expr Note} {body : Stmt Note Target} :
    StmtRecorded s (.while n c body) ↔ ExprRecorded s c ∧ StmtRecorded s body := by
  rw [StmtRecorded, Stmt.items, List.forall_mem_append, exprRecorded_iff]
  rfl

theorem stmtRecorded_print {e : Expr Note} :
    StmtRecorded s (.print n e) ↔ ExprRecorded s e := by
  rw [StmtRecorded, Stmt.items, exprRecorded_iff]

theorem bodyRecorded_cons {st : Stmt Note Target} {sts : List (Stmt Note Target)} :
    BodyRecorded s (st :: sts) ↔ StmtRecorded s st ∧ BodyRecorded s sts := by
  rw [BodyRecorded, bodyItems, List.forall_mem_append]
  rfl

end Statements

section Judgments
variable {t : ClassTable} {p : Place}

theorem checkCond_judged (forest : t.Forest) (line : Nat) (c : Expr Unit) :
    Judged t (checkCond p line c) (fun c' => c'.bare = c) (∃ r, HasType ⟨t, p⟩ c ⟨.boolean, r⟩)
      (ExprRecorded ⟨t, p⟩) :=
  .take fun _ same => expected_judges forest same c line .boolean .conditionMustBeBoolean
    fun ty y => by simp

theorem checkPrint_judged (forest : t.Forest) (line : Nat) (e : Expr Unit) :
    Judged t (checkStmt p (.print line e)) (fun st => st.bare = .print line e)
      (StmtTyped ⟨t, p⟩ (.print line e)) (StmtRecorded ⟨t, p⟩) := by
  have value : Judged t (take fun u => do
      let e ← typeExpr ⟨u, p⟩ e
      let _ ← expect line e .int .printRequiresInt
      return e) (fun e' => e'.bare = e) (∃ r, HasType ⟨t, p⟩ e ⟨.int, r⟩)
      (ExprRecorded ⟨t, p⟩) :=
    .take fun _ same =>
      expected_judges forest same e line .int .printRequiresInt fun ty y => by simp
  have together : checkStmt p (.print line e) = (do
      let e ← take fun u => do
        let e ← typeExpr ⟨u, p⟩ e
        let _ ← expect line e .int .printRequiresInt
        return e
      return .print line e) := by
    rw [checkStmt]
    funext st
    have report : (st.report.addAll (typeExpr ⟨st.table, p⟩ e).findings).addAll
        (expect line (typeExpr ⟨st.table, p⟩ e).value .int .printRequiresInt).findings =
        st.report.addAll ((typeExpr ⟨st.table, p⟩ e).findings ++
          ((expect line (typeExpr ⟨st.table, p⟩ e).value .int .printRequiresInt).findings ++
            [])) := by
      rw [List.append_nil, Report.addAll_append]
    exact congrArg
      (fun r => (Stmt.print line (typeExpr ⟨st.table, p⟩ e).value, State.mk st.table r)) report
  rw [together]
  exact (value.map (Stmt.print line) (StmtRecorded ⟨t, p⟩)
    (fun e' he => he ▸ rfl) fun _ hr => stmtRecorded_print.mpr hr).congr stmtTyped_print
      fun _ _ hr => hr

theorem blankStmt_bare (st : Stmt Unit Unit) : (blankStmt st).bare = st :=
  (Stmt.bare_map _ _ st).trans (Stmt.bare_unit st)

theorem blankStmts_bare (sts : List (Stmt Unit Unit)) :
    (sts.map blankStmt).map Stmt.bare = sts := by
  rw [List.map_map]
  exact (List.map_congr_left fun st _ => blankStmt_bare st).trans (List.map_id' sts)

mutual

theorem checkStmt_judged (forest : t.Forest) :
    ∀ st : Stmt Unit Unit, Judged t (checkStmt p st) (fun st' => st'.bare = st)
      (StmtTyped ⟨t, p⟩ st) (StmtRecorded ⟨t, p⟩)
  | .block line body => by
    rw [checkStmt]
    refine ((checkStmts_judged forest body).map (Stmt.block line) (StmtRecorded ⟨t, p⟩)
      (fun body' hb => ?_) fun _ hr => hr).congr stmtTyped_block fun _ _ hr => hr
    exact congrArg (Stmt.block line) ((mapBody_eq_map _ _ body').trans hb)
  | .assign line x _ value => by
    rw [checkStmt]
    exact (checkAssign_judged forest line x value).map (fun r => Stmt.assign line x r.1 r.2)
      (StmtRecorded ⟨t, p⟩) (fun r hr => congrArg (Stmt.assign line x ()) hr)
      fun _ hr => stmtRecorded_assign.mpr hr
  | .arrayAssign line x _ index value => by
    rw [checkStmt]
    exact (Judged.take fun _ same => arrayAssign_judges forest same line x index value).map
      (fun r => Stmt.arrayAssign line x r.1 r.2.1 r.2.2) (StmtRecorded ⟨t, p⟩) 
      (fun r hr => congr (congrArg (Stmt.arrayAssign line x ()) hr.1) hr.2)
      fun _ hr => stmtRecorded_arrayAssign.mpr hr
  | .ifElse line c yes no => by
    rw [checkStmt]
    refine ((checkCond_judged forest line c).bind fun c' hc =>
      (checkStmt_judged forest yes).bind fun yes' hy =>
        (checkStmt_judged forest no).map (Stmt.ifElse line c' yes')
          (fun st => ∃ no', StmtRecorded ⟨t, p⟩ no' ∧ st = .ifElse line c' yes' no')
          (fun no' hn => ?_) fun no' hr => ⟨no', hr, rfl⟩).congr stmtTyped_ifElse ?_
    · exact congr (congr (congrArg (Stmt.ifElse line) hc) hy) hn
    · rintro st _ ⟨c', hc, yes', hy, no', hn, rfl⟩
      exact stmtRecorded_ifElse.mpr ⟨hc, hy, hn⟩
  | .while line c body => by
    rw [checkStmt]
    refine ((checkCond_judged forest line c).bind fun c' hc =>
      (checkStmt_judged forest body).map (Stmt.while line c')
        (fun st => ∃ body', StmtRecorded ⟨t, p⟩ body' ∧ st = .while line c' body')
        (fun body' hb => ?_) fun body' hr => ⟨body', hr, rfl⟩).congr stmtTyped_while ?_
    · exact congr (congrArg (Stmt.while line) hc) hb
    · rintro st _ ⟨c', hc, body', hb, rfl⟩
      exact stmtRecorded_while.mpr ⟨hc, hb⟩
  | .print line value => checkPrint_judged forest line value

theorem checkStmts_judged (forest : t.Forest) :
    ∀ sts : List (Stmt Unit Unit), Judged t (checkStmts p sts)
      (fun sts' => sts'.map Stmt.bare = sts) (BodyTyped ⟨t, p⟩ sts) (BodyRecorded ⟨t, p⟩)
  | [] => by
    rw [checkStmts]
    have nothing : Judged t (return [] : CheckM (List (Stmt Note Target)))
        (fun sts' => sts'.map Stmt.bare = []) True (BodyRecorded ⟨t, p⟩) :=
      .pure rfl fun x hx => (by cases hx)
    exact nothing.congr ⟨fun _ => trivial, fun _ st h => (by cases h)⟩ fun _ _ hr => hr
  | st :: sts => by
    rw [checkStmts]
    refine (Judged.ifFull ?_ ?_).congr bodyTyped_cons fun _ _ hr => hr
    · refine ((checkStmt_judged forest st).bind fun st' hst =>
        (checkStmts_judged forest sts).map (st' :: ·)
          (fun r => ∃ sts', BodyRecorded ⟨t, p⟩ sts' ∧ r = st' :: sts')
          (fun sts' hsts => ?_) fun sts' hr => ⟨sts', hr, rfl⟩).congr Iff.rfl ?_
      · rw [List.map_cons, hst, hsts]
      · rintro r _ ⟨st', hst, sts', hsts, rfl⟩
        exact bodyRecorded_cons.mpr ⟨hst, hsts⟩
    · exact blankStmts_bare (st :: sts)

end

end Judgments

end MiniJava.Typing
