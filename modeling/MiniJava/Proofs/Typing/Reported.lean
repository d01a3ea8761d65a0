import MiniJava.Proofs.Typing.Lookup

/-!
# Expressions without a type are reported

Whatever the class table and the place of a body are, typing an expression comes to one of two
things. Either something is found that is not just a variable read too early, or every expression
inside has a type. So what is abandoned for want of a type has been reported, as long as the report
has room.
-/
namespace MiniJava

/-- A report that has room takes the first of several findings at least. -/
theorem Report.findings_addAll_of_room {r : Report} (room : r.full = false) {fs : List Finding}
    (found : fs ≠ []) : ∃ f gs, (r.addAll fs).findings = r.findings ++ f :: gs := by
  obtain ⟨f, fs, rfl⟩ := List.exists_cons_of_ne_nil found
  have first : (r.add f).findings = r.findings ++ [f] := by simp [add, room]
  obtain ⟨gs, grown⟩ := findings_prefix_addAll (r.add f) fs
  refine ⟨f, gs, ?_⟩
  rw [List.append_cons, ← first]
  exact grown.symm

namespace Typing

open Check

theorem noteIf_eq_some {ok : Bool} {ty : Ty} {ref : Option Ref} {i : ExprInfo} :
    noteIf ok ty ref = some i ↔ ok = true ∧ i = ⟨ty, ref⟩ := by
  cases ok <;> simp [noteIf, eq_comm]

@[simp] theorem isSome_noteIf {ok : Bool} {ty : Ty} {ref : Option Ref} :
    (noteIf ok ty ref).isSome = ok := by
  cases ok <;> rfl

/-- An expression without a note has been reported before; otherwise a check that fails finds a
fault of its own. -/
structure Checks (note : Note) (x : Found Bool) (P : ExprInfo → Prop) : Prop where
  value : x.value = true ↔ ∃ i, note = some i ∧ P i
  clean : OnlyUninitialized x.findings ↔ x.value = true ∨ note = none

theorem Checks.isSome {note : Note} {x : Found Bool} {P : ExprInfo → Prop} (h : Checks note x P)
    (hx : x.value = true) : note.isSome = true := by
  obtain ⟨i, hi, _⟩ := h.value.mp hx
  rw [hi]
  rfl

theorem expect_checks (line : Nat) (e : Expr Note) (ty : Ty) (error : Ty → SemanticError)
    (fault : ∀ ty, Fault (error ty)) :
    Checks e.note (expect line e ty error) fun i => i.ty = ty := by
  unfold expect
  cases e.note with
  | none => exact ⟨by simp, by simp⟩
  | some i =>
    by_cases h : i.ty = ty
    · simp only [if_pos h]
      exact ⟨by simp [h], by simp⟩
    · simp only [if_neg h]
      exact ⟨by simp [h], by simp [(fault i.ty).not_uninitialized line]⟩

theorem checkArg_fits (s : Scope) (line : Nat) (m : Name) (position : Nat) (ty : Ty)
    (e : Expr Note) :
    Checks e.note (checkArg s line m position ty e) fun i =>
      s.table.assignable ty i.ty = true := by
  unfold checkArg
  cases e.note with
  | none => exact ⟨by simp, by simp⟩
  | some i =>
    by_cases fits : s.table.assignable ty i.ty = true
    · simp only [if_pos fits]
      exact ⟨by simp [fits], by simp⟩
    · have fault : Fault (.argTypeMismatch m position ty i.ty) := by intro y; simp
      simp only [if_neg fits]
      exact ⟨by simp [fits], by simp [fault.not_uninitialized line]⟩

/-- As before, for a check that hands on the type of the elements. -/
theorem elementTy_value (line : Nat) (e : Expr Note) (element : Ty) :
    (elementTy line e).value = some element ↔
      ∃ i, e.note = some i ∧ i.ty.element? = some element := by
  unfold elementTy
  cases e.note with
  | none => simp
  | some i => cases h : i.ty.element? <;> simp [h]

theorem elementTy_clean (line : Nat) (e : Expr Note) :
    OnlyUninitialized (elementTy line e).findings ↔
      (elementTy line e).value.isSome = true ∨ e.note = none := by
  unfold elementTy
  cases e.note with
  | none => simp
  | some i =>
    have fault : Fault (.notAnArray i.ty) := by intro y; simp
    cases h : i.ty.element? <;> simp [h, fault.not_uninitialized line]

theorem elementTy_noted {line : Nat} {e : Expr Note}
    (typed : (elementTy line e).value.isSome = true) : e.note.isSome = true := by
  obtain ⟨element, hel⟩ := Option.isSome_iff_exists.mp typed
  obtain ⟨i, hi, _⟩ := (elementTy_value line e element).mp hel
  rw [hi]
  rfl

theorem typeBinary_value (line : Nat) (op : BinOp) (a b : Expr Note) (i : ExprInfo) :
    (typeBinary line op a b).value = some i ↔
      (∃ r, a.note = some ⟨op.operandTy, r⟩) ∧ (∃ q, b.note = some ⟨op.operandTy, q⟩) ∧
        i = ⟨op.resultTy, none⟩ := by
  unfold typeBinary
  cases a.note with
  | none => simp
  | some j =>
    cases b.note with
    | none => simp
    | some k =>
      obtain ⟨ty, r⟩ := j
      obtain ⟨ty', q⟩ := k
      by_cases h : ty = op.operandTy ∧ ty' = op.operandTy
      · simp [h, eq_comm]
      · simp only [if_neg h]
        simp only [Found.value_bind, Found.value_pure, reduceCtorEq, false_iff]
        rintro ⟨⟨_, hj⟩, ⟨_, hk⟩, _⟩
        exact h ⟨congrArg ExprInfo.ty (Option.some.inj hj),
          congrArg ExprInfo.ty (Option.some.inj hk)⟩

theorem typeBinary_clean (line : Nat) (op : BinOp) (a b : Expr Note) :
    OnlyUninitialized (typeBinary line op a b).findings ↔
      (typeBinary line op a b).value.isSome = true ∨ a.note = none ∨ b.note = none := by
  unfold typeBinary
  cases a.note with
  | none => simp
  | some j =>
    cases b.note with
    | none => simp
    | some k =>
      have fault : Fault (.invalidOperands op j.ty k.ty) := by intro y; simp
      by_cases h : j.ty = op.operandTy ∧ k.ty = op.operandTy
      · simp [h]
      · simp [if_neg h, fault.not_uninitialized line]

theorem typeBinary_noted {line : Nat} {op : BinOp} {a b : Expr Note}
    (typed : (typeBinary line op a b).value.isSome = true) :
    a.note.isSome = true ∧ b.note.isSome = true := by
  obtain ⟨i, hi⟩ := Option.isSome_iff_exists.mp typed
  obtain ⟨⟨_, ha⟩, ⟨_, hb⟩, _⟩ := (typeBinary_value ..).mp hi
  exact ⟨by rw [ha]; rfl, by rw [hb]; rfl⟩

/-- What is found behind a part of the program counts only if that part is typed. -/
theorem onlyUninitialized_behind {fs gs : List Finding} {p q : Prop}
    (before : OnlyUninitialized fs ↔ p) (after : p → (OnlyUninitialized gs ↔ q)) (typed : q → p) :
    OnlyUninitialized (fs ++ gs) ↔ q := by
  rw [onlyUninitialized_append, before]
  exact ⟨fun both => (after both.1).mp both.2, fun hq => ⟨typed hq, (after (typed hq)).mpr hq⟩⟩

/-- A check after an operand, which has no note only if a fault was found in it. -/
theorem clean_after {fs gs : List Finding} {note : Note} {ok : Prop}
    (before : OnlyUninitialized fs ↔ note.isSome = true)
    (after : OnlyUninitialized gs ↔ ok ∨ note = none) (noted : ok → note.isSome = true) :
    OnlyUninitialized (fs ++ gs) ↔ ok :=
  onlyUninitialized_behind before
    (fun some => after.trans (or_iff_left (Option.isSome_iff_ne_none.mp some))) noted

/-- What is found settles whether a part of the program is typed, and then every expression inside
has a note. -/
structure Settled (found : List Finding) (typed : Prop) (inside : List (Expr Note)) : Prop where
  clean : OnlyUninitialized found ↔ typed
  noted : typed → ∀ x ∈ inside, x.note.isSome = true

def ExprSettled (x : Found (Expr Note)) : Prop :=
  Settled x.findings (x.value.note.isSome = true) x.value.all

def FormSettled (x : Found (ExprForm Note × Note)) : Prop :=
  Settled x.findings (x.value.2.isSome = true) x.value.1.all

def ArgsSettled (x : Found (List (Expr Note) × Bool)) : Prop :=
  Settled x.findings (x.value.2 = true) (allArgs x.value.1)

namespace Settled
variable {fs gs : List Finding} {p q : Prop} {xs ys : List (Expr Note)}

theorem fault (h : Settled fs p xs) (untyped : ¬ p) : ¬ OnlyUninitialized fs :=
  mt h.clean.mp untyped

theorem of_fault (fault : ¬ OnlyUninitialized fs) (untyped : ¬ p) : Settled fs p xs :=
  ⟨iff_of_false fault untyped, fun typed => absurd typed untyped⟩

theorem of_leaf (clean : OnlyUninitialized fs ↔ p) : Settled fs p [] := ⟨clean, fun _ => nofun⟩

theorem congr (h : Settled fs p xs) (iff : p ↔ q) : Settled fs q xs :=
  ⟨h.clean.trans iff, fun hq => h.noted (iff.mpr hq)⟩

theorem append (first : Settled fs p xs) (second : Settled gs q ys) :
    Settled (fs ++ gs) (p ∧ q) (xs ++ ys) where
  clean := by rw [onlyUninitialized_append, first.clean, second.clean]
  noted typed := List.forall_mem_append.mpr ⟨first.noted typed.1, second.noted typed.2⟩

theorem behind (first : Settled fs p xs) (after : p → (OnlyUninitialized gs ↔ q)) (typed : q → p) :
    Settled (fs ++ gs) q xs :=
  ⟨onlyUninitialized_behind first.clean after typed, fun hq => first.noted (typed hq)⟩

theorem check {note : Note} (operand : Settled fs (note.isSome = true) xs)
    (after : OnlyUninitialized gs ↔ q ∨ note = none) (noted : q → note.isSome = true) :
    Settled (fs ++ gs) q xs :=
  ⟨clean_after operand.clean after noted, fun hq => operand.noted (noted hq)⟩

end Settled

section Lookups
variable (s : Scope) (line : Nat)

theorem resolve_clean (x : Name) :
    OnlyUninitialized (s.resolve line x).findings ↔ (s.resolve line x).value.isSome = true := by
  rw [Scope.resolve]
  split
  · simp
  · split
    · simp [Finding.IsUninitialized]
    · split <;> simp [Finding.IsUninitialized]

theorem instantiate_clean (cls : Name) :
    OnlyUninitialized (s.instantiate line cls).findings ↔
      (s.instantiate line cls).value.isSome = true := by
  rw [Scope.instantiate]
  split
  · simp [Finding.IsUninitialized]
  · split <;> simp [Finding.IsUninitialized]

/-- A method that is found is in the table, so a message is not given up without a finding. -/
theorem callee_clean (ty : Ty) (m : Name) :
    OnlyUninitialized (s.callee line ty m).findings ↔
      (s.callee line ty m).value.isSome = true := by
  rw [Scope.callee]
  split
  · simp [Finding.IsUninitialized]
  · split
    · simp [Finding.IsUninitialized]
    · rename_i seen
      obtain ⟨k, hk, _⟩ := ClassTable.exists_method_of_find seen
      simp [hk]

end Lookups

section Forms
variable {s : Scope} {line : Nat} {a b : Expr Unit}

theorem binary_settled {op : BinOp} (ha : ExprSettled (typeExpr s a))
    (hb : ExprSettled (typeExpr s b)) : FormSettled (typeForm s line (.binary op a b)) := by
  have clean := typeBinary_clean line op (typeExpr s a).value (typeExpr s b).value
  have settled := (ha.append hb).behind
    (fun noted => clean.trans (or_iff_left (not_or.mpr ⟨Option.isSome_iff_ne_none.mp noted.1,
      Option.isSome_iff_ne_none.mp noted.2⟩))) typeBinary_noted
  rw [List.append_assoc] at settled
  rw [typeForm]
  simp only [FormSettled, Found.bind_eq, Found.pure_eq, List.append_nil]
  exact settled

/-- The forms with one operand of a fixed type. -/
theorem unary_settled {wrap : Expr Note → ExprForm Note} {operand result : Ty}
    {error : Ty → SemanticError} (ha : ExprSettled (typeExpr s a))
    (inside : ∀ x, (wrap x).all = x.all) (fault : ∀ ty, Fault (error ty)) :
    FormSettled (do
      let x ← typeExpr s a
      let ok ← expect line x operand error
      return (wrap x, noteIf ok result none)) := by
  have check := expect_checks line (typeExpr s a).value operand error fault
  simp only [FormSettled, Found.bind_eq, Found.pure_eq, List.append_nil, isSome_noteIf, inside]
  exact ha.check check.clean check.isSome

/-- An array, with the type of its elements. -/
theorem array_settled (line : Nat) (ha : ExprSettled (typeExpr s a)) :
    Settled ((typeExpr s a).findings ++ (elementTy line (typeExpr s a).value).findings)
      ((elementTy line (typeExpr s a).value).value.isSome = true) (typeExpr s a).value.all :=
  ha.check (elementTy_clean line _) elementTy_noted

theorem lookup_settled (ha : ExprSettled (typeExpr s a)) (hb : ExprSettled (typeExpr s b)) :
    FormSettled (typeForm s line (.lookup a b)) := by
  have array := array_settled line ha
  rw [typeForm]
  cases hel : (elementTy line (typeExpr s a).value).value with
  | none =>
    rw [hel] at array
    simp only [FormSettled, Found.bind_eq, Found.pure_eq, hel, List.append_nil]
    exact .of_fault (array.fault Bool.false_ne_true) Bool.false_ne_true
  | some element =>
    rw [hel] at array
    have check := expect_checks line (typeExpr s b).value .int .indexMustBeInt fun ty x => by simp
    have settled := array.append (hb.check check.clean check.isSome)
    rw [List.append_assoc] at settled
    simp only [FormSettled, Found.bind_eq, Found.pure_eq, hel, List.append_nil, isSome_noteIf]
    exact settled.congr (and_iff_right rfl)

theorem length_settled (ha : ExprSettled (typeExpr s a)) :
    FormSettled (typeForm s line (.length a)) := by
  rw [typeForm]
  simp only [FormSettled, Found.bind_eq, Found.pure_eq, List.append_nil, isSome_noteIf]
  exact array_settled line ha

theorem name_settled (x : Name) : FormSettled (typeForm s line (.name x)) := by
  have resolved := resolve_clean s line x
  rw [typeForm]
  cases hv : (s.resolve line x).value with
  | none =>
    rw [hv] at resolved
    simp only [FormSettled, Found.bind_eq, Found.pure_eq, hv, List.append_nil]
    exact .of_leaf resolved
  | some v =>
    rw [hv] at resolved
    have read := checkInitialized_only s line x v.1
    simp only [FormSettled, Found.bind_eq, Found.pure_eq, hv, List.append_nil]
    exact .of_leaf (iff_of_true (onlyUninitialized_append.mpr ⟨resolved.mpr rfl, read⟩) rfl)

theorem this_settled : FormSettled (typeForm s line .this) := by
  rw [typeForm]
  cases s.place.method with
  | none => exact .of_leaf (by simp [Found.bind_eq, Finding.IsUninitialized])
  | some _ => exact .of_leaf (by simp)

theorem newObject_settled (cls : Name) : FormSettled (typeForm s line (.newObject cls)) := by
  rw [typeForm]
  simp only [FormSettled, Found.bind_eq, Found.pure_eq, List.append_nil, Option.isSome_map]
  exact .of_leaf (instantiate_clean s line cls)

theorem send_settled {m : Name} {args : List (Expr Unit)} (ha : ExprSettled (typeExpr s a))
    (hargs : ∀ tys, ArgsSettled (typeArgs s line m 1 tys args)) :
    FormSettled (typeForm s line (.send a m args)) := by
  rw [typeForm]
  cases hi : (typeExpr s a).value.note with
  | none =>
    simp only [FormSettled, Found.bind_eq, Found.pure_eq, hi, List.append_nil]
    refine .of_fault ?_ Bool.false_ne_true
    rw [ha.clean, hi]
    exact Bool.false_ne_true
  | some info =>
    have called := callee_clean s line info.ty m
    cases hc : (s.callee line info.ty m).value with
    | none =>
      rw [hc] at called
      simp only [FormSettled, Found.bind_eq, Found.pure_eq, hi, hc, List.append_nil]
      refine .of_fault ?_ Bool.false_ne_true
      rw [onlyUninitialized_append, called]
      exact fun clean => Bool.false_ne_true clean.2
    | some rk =>
      -- the arguments are typed only if there are as many as parameters
      rw [hc] at called
      by_cases len : rk.2.paramTys.length = args.length
      · have settled := (ha.behind (iff_of_true (called.mpr rfl)) id).append
          (hargs rk.2.paramTys)
        rw [List.append_assoc, hi] at settled
        simp only [FormSettled, Found.bind_eq, Found.pure_eq, hi, hc, if_pos len, List.append_nil,
          isSome_noteIf]
        exact settled.congr (and_iff_right rfl)
      · simp only [FormSettled, Found.bind_eq, Found.pure_eq, hi, hc, if_neg len, List.append_nil]
        refine .of_fault ?_ Bool.false_ne_true
        simp [Finding.IsUninitialized]

theorem args_cons_settled {m : Name} {position : Nat} {tys : List Ty} {args : List (Expr Unit)}
    (ha : ExprSettled (typeExpr s a))
    (hargs : ArgsSettled (typeArgs s line m (position + 1) tys.tail args)) :
    ArgsSettled (typeArgs s line m position tys (a :: args)) := by
  have check := checkArg_fits s line m position (tys.headD .int) (typeExpr s a).value
  have settled := (ha.check check.clean check.isSome).append hargs
  rw [List.append_assoc] at settled
  rw [typeArgs]
  simp only [ArgsSettled, Found.bind_eq, Found.pure_eq, List.append_nil]
  exact settled.congr Bool.and_eq_true_iff.symm

end Forms

section Expressions
variable (s : Scope)

mutual

theorem typeExpr_settled : ∀ e : Expr Unit, ExprSettled (typeExpr s e)
  | .node line _ form => by
    have h := typeForm_settled line form
    rw [typeExpr]
    simp only [ExprSettled, Found.bind_eq, Found.pure_eq, List.append_nil]
    exact ⟨h.clean, fun typed => List.forall_mem_cons.mpr ⟨typed, h.noted typed⟩⟩

theorem typeForm_settled (line : Nat) : ∀ form : ExprForm Unit, FormSettled (typeForm s line form)
  | .binary _ a b => binary_settled (typeExpr_settled a) (typeExpr_settled b)
  | .lookup a i => lookup_settled (typeExpr_settled a) (typeExpr_settled i)
  | .length a => length_settled (typeExpr_settled a)
  | .send r m args =>
    send_settled (typeExpr_settled r) fun tys => typeArgs_settled line m args 1 tys
  | .int _ => by
    rw [typeForm]
    exact .of_leaf (by simp)
  | .tt => by
    rw [typeForm]
    exact .of_leaf (by simp)
  | .ff => by
    rw [typeForm]
    exact .of_leaf (by simp)
  | .name x => name_settled x
  | .this => this_settled
  | .newIntArray n => by
    rw [typeForm]
    exact unary_settled (typeExpr_settled n) (fun _ => rfl) fun ty x => by simp
  | .newBooleanArray n => by
    rw [typeForm]
    exact unary_settled (typeExpr_settled n) (fun _ => rfl) fun ty x => by simp
  | .newObject cls => newObject_settled cls
  | .not e => by
    rw [typeForm]
    exact unary_settled (typeExpr_settled e) (fun _ => rfl) fun ty x => by simp
  | .bracket e => by
    rw [typeForm]
    simp only [FormSettled, Found.bind_eq, Found.pure_eq, List.append_nil]
    exact typeExpr_settled e

theorem typeArgs_settled (line : Nat) (m : Name) : ∀ (args : List (Expr Unit)) (position : Nat)
    (tys : List Ty), ArgsSettled (typeArgs s line m position tys args)
  | [], _, _ => by
    rw [typeArgs]
    exact .of_leaf (by simp)
  | a :: args, position, tys =>
    args_cons_settled (typeExpr_settled a) (typeArgs_settled line m args (position + 1) tys.tail)

end

@[simp] theorem blank_bare (e : Expr Unit) : (blank e).bare = e :=
  (Expr.bare_map _ e).trans (Expr.bare_unit e)

@[simp] theorem blankArgs_bare (es : List (Expr Unit)) : (blankArgs es).map Expr.bare = es := by
  rw [blankArgs, mapArgs_eq_map, List.map_map]
  exact (List.map_congr_left fun e _ => blank_bare e).trans (List.map_id' es)

mutual

/-- Typing changes nothing but the notes. -/
theorem typeExpr_bare : ∀ e : Expr Unit, (typeExpr s e).value.bare = e
  | .node line _ form => by
    rw [typeExpr]
    exact congrArg (Expr.node line ()) (typeForm_bare line form)

theorem typeForm_bare (line : Nat) :
    ∀ form : ExprForm Unit, (typeForm s line form).value.1.bare = form
  | .binary op a b => by
    rw [typeForm]
    exact congr (congrArg (ExprForm.binary op) (typeExpr_bare a)) (typeExpr_bare b)
  | .lookup a i => by
    rw [typeForm]
    simp only [Found.value_bind]
    split <;> simp [typeExpr_bare a, typeExpr_bare i]
  | .length a => by
    rw [typeForm]
    exact congrArg ExprForm.length (typeExpr_bare a)
  | .send r m args => by
    rw [typeForm]
    simp only [Found.value_bind]
    split
    · simp [typeExpr_bare r]
    · simp only [Found.value_bind]
      split
      · simp [typeExpr_bare r]
      · split <;> simp [typeExpr_bare r, typeArgs_bare line m args]
  | .int _ => by
    rw [typeForm]
    rfl
  | .tt => by
    rw [typeForm]
    rfl
  | .ff => by
    rw [typeForm]
    rfl
  | .name _ => by
    rw [typeForm]
    simp only [Found.value_bind]
    split <;> rfl
  | .this => by
    rw [typeForm]
    split <;> rfl
  | .newIntArray n => by
    rw [typeForm]
    exact congrArg ExprForm.newIntArray (typeExpr_bare n)
  | .newBooleanArray n => by
    rw [typeForm]
    exact congrArg ExprForm.newBooleanArray (typeExpr_bare n)
  | .newObject _ => by
    rw [typeForm]
    rfl
  | .not e => by
    rw [typeForm]
    exact congrArg ExprForm.not (typeExpr_bare e)
  | .bracket e => by
    rw [typeForm]
    exact congrArg ExprForm.bracket (typeExpr_bare e)

theorem typeArgs_bare (line : Nat) (m : Name) : ∀ (args : List (Expr Unit)) (position : Nat)
    (tys : List Ty), (typeArgs s line m position tys args).value.1.map Expr.bare = args
  | [], _, _ => by
    rw [typeArgs]
    rfl
  | a :: args, position, tys => by
    rw [typeArgs]
    simp only [Found.value_bind, Found.value_pure, List.map_cons, typeExpr_bare a,
      typeArgs_bare line m args]

end

end Expressions

/-- An expression that is left without a type has been reported, unless the report was full before,
and not just as a variable that might not have been initialized. In an expression that gets a type
nothing else than such variables is found, and every expression inside has a type as well. Nothing
changes but the report, whatever the class table, the place of the body and the limit are. -/
theorem typed_or_reported (p : Place) (e : Expr Unit) (st : State) :
    ∃ found, (typeIn p e st).2 = { st with report := st.report.addAll found } ∧
      ((typeIn p e st).1.note = none → ¬ OnlyUninitialized found ∧
        (st.report.full = true ∨
          ∃ f fs, (typeIn p e st).2.report.findings = st.report.findings ++ f :: fs)) ∧
      ((typeIn p e st).1.note.isSome = true → OnlyUninitialized found ∧
        (typeIn p e st).1.bare = e ∧ ∀ x ∈ (typeIn p e st).1.all, x.note.isSome = true) := by
  have settled := typeExpr_settled ⟨st.table, p⟩ e
  refine ⟨_, rfl, fun untyped => ?_, fun typed => ?_⟩
  · have fault : ¬ OnlyUninitialized (typeExpr ⟨st.table, p⟩ e).findings :=
      fun clean => Option.isSome_iff_ne_none.mp (settled.clean.mp clean) untyped
    have found : (typeExpr ⟨st.table, p⟩ e).findings ≠ [] :=
      fun none_found => fault (none_found ▸ onlyUninitialized_nil)
    refine ⟨fault, ?_⟩
    cases room : st.report.full with
    | true => exact Or.inl rfl
    | false => exact Or.inr (Report.findings_addAll_of_room room found)
  · exact ⟨settled.clean.mpr typed, typeExpr_bare _ e, settled.noted typed⟩

section Sample

/-- Inside `main`, with a local `n` and room for one finding. -/
def unassigned : State where
  table := ClassTable.empty.push
    { name := "Main", line := 1, entry := some ⟨"args", [⟨"n", .int, 1, false⟩]⟩ }
  report := ⟨some 1, []⟩

/-- `n` and something else. -/
def added (form : ExprForm Unit) : Expr Unit :=
  .node 1 () (.binary .add (.node 1 () (.name "n")) (.node 1 () form))

theorem typed_or_reported_unassigned :
    (typeIn ⟨0, none⟩ (added (.name "k")) unassigned).1.note = none ∧
      (∃ f fs, (typeIn ⟨0, none⟩ (added (.name "k")) unassigned).2.report.findings = f :: fs) ∧
      (typeIn ⟨0, none⟩ (added (.int 1)) unassigned).1.note.isSome = true ∧
      ∀ x ∈ (typeIn ⟨0, none⟩ (added (.int 1)) unassigned).1.all, x.note.isSome = true := by
  obtain ⟨_, _, reported, _⟩ := typed_or_reported ⟨0, none⟩ (added (.name "k")) unassigned
  obtain ⟨_, _, _, typed⟩ := typed_or_reported ⟨0, none⟩ (added (.int 1)) unassigned
  exact ⟨rfl, (reported rfl).2.resolve_left (by decide), rfl, (typed rfl).2.2⟩

end Sample

end Typing

end MiniJava
