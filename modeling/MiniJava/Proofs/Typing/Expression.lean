import MiniJava.Proofs.Typing.Reported

/-!
# Types of expressions

Typing an expression decides whether the rules give it a type. If they do, nothing but variables
that might not have been initialized is found, and every expression inside carries what is derived
for it; if they do not, something else is found and the expression carries no note. The operands are
typed before the expression, so each form is decided from what is decided about its operands.
-/
namespace MiniJava.Typing

open Check

section Inversion
variable {s : Scope} {n : Nat} {i : ExprInfo}

theorem hasType_binary {op : BinOp} {a b : Expr Unit} :
    HasType s (.node n () (.binary op a b)) i ↔
      (∃ r, HasType s a ⟨op.operandTy, r⟩) ∧ (∃ q, HasType s b ⟨op.operandTy, q⟩) ∧
        i = ⟨op.resultTy, none⟩ := by
  constructor
  · intro h
    cases h with
    | and ha hb => exact ⟨⟨_, ha⟩, ⟨_, hb⟩, rfl⟩
    | less ha hb => exact ⟨⟨_, ha⟩, ⟨_, hb⟩, rfl⟩
    | arith hop ha hb => rcases hop with rfl | rfl | rfl <;> exact ⟨⟨_, ha⟩, ⟨_, hb⟩, rfl⟩
  · rintro ⟨⟨r, ha⟩, ⟨q, hb⟩, rfl⟩
    cases op with
    | and => exact .and ha hb
    | less => exact .less ha hb
    | add => exact .arith (Or.inl rfl) ha hb
    | sub => exact .arith (Or.inr (Or.inl rfl)) ha hb
    | mul => exact .arith (Or.inr (Or.inr rfl)) ha hb

theorem hasType_lookup {a e : Expr Unit} :
    HasType s (.node n () (.lookup a e)) i ↔
      ∃ array r element, HasType s a ⟨array, r⟩ ∧ array.element? = some element ∧
        (∃ q, HasType s e ⟨.int, q⟩) ∧ i = ⟨element, none⟩ := by
  constructor
  · intro h
    cases h with
    | lookup ha hel he => exact ⟨_, _, _, ha, hel, ⟨_, he⟩, rfl⟩
  · rintro ⟨array, r, element, ha, hel, ⟨q, he⟩, rfl⟩
    exact .lookup ha hel he

theorem hasType_length {a : Expr Unit} :
    HasType s (.node n () (.length a)) i ↔
      ∃ array r element, HasType s a ⟨array, r⟩ ∧ array.element? = some element ∧
        i = ⟨.int, none⟩ := by
  constructor
  · intro h
    cases h with
    | length ha hel => exact ⟨_, _, _, ha, hel, rfl⟩
  · rintro ⟨array, r, element, ha, hel, rfl⟩
    exact .length ha hel

theorem hasType_send {e : Expr Unit} {m : Name} {args : List (Expr Unit)} :
    HasType s (.node n () (.send e m args)) i ↔
      ∃ ty r ref k, HasType s e ⟨ty, r⟩ ∧ Calls s ty m ref ∧ s.table.method? ref = some k ∧
        ArgsFit s k.paramTys args ∧ i = ⟨k.returnTy, some (.method ref)⟩ := by
  constructor
  · intro h
    cases h with
    | send he hc hs hk hargs => exact ⟨_, _, _, _, he, ⟨_, _, rfl, hc, hs⟩, hk, hargs, rfl⟩
  · rintro ⟨ty, r, ref, k, he, ⟨cls, c, rfl, hc, hs⟩, hk, hargs, rfl⟩
    exact .send he hc hs hk hargs

theorem hasType_int {v : Int32} :
    HasType s (.node n () (.int v)) i ↔ i = ⟨.int, none⟩ :=
  ⟨fun h => (by cases h; rfl), fun h => h ▸ .int⟩

theorem hasType_tt : HasType s (.node n () .tt) i ↔ i = ⟨.boolean, none⟩ :=
  ⟨fun h => (by cases h; rfl), fun h => h ▸ .tt⟩

theorem hasType_ff : HasType s (.node n () .ff) i ↔ i = ⟨.boolean, none⟩ :=
  ⟨fun h => (by cases h; rfl), fun h => h ▸ .ff⟩

theorem hasType_name {x : Name} :
    HasType s (.node n () (.name x)) i ↔ ∃ v ty, Denotes s x v ty ∧ i = ⟨ty, some (.var v)⟩ := by
  constructor
  · intro h
    cases h with
    | name hd => exact ⟨_, _, hd, rfl⟩
  · rintro ⟨v, ty, hd, rfl⟩
    exact .name hd

theorem hasType_this :
    HasType s (.node n () .this) i ↔
      s.place.method.isSome = true ∧ i = ⟨.object (s.table.nameOf s.place.cls), none⟩ := by
  constructor
  · intro h
    cases h with
    | this hm => exact ⟨by rw [hm]; rfl, rfl⟩
  · rintro ⟨hm, rfl⟩
    obtain ⟨m, hm⟩ := Option.isSome_iff_exists.mp hm
    exact .this hm

theorem hasType_newIntArray {e : Expr Unit} :
    HasType s (.node n () (.newIntArray e)) i ↔
      (∃ r, HasType s e ⟨.int, r⟩) ∧ i = ⟨.intArray, none⟩ := by
  constructor
  · intro h
    cases h with
    | newIntArray he => exact ⟨⟨_, he⟩, rfl⟩
  · rintro ⟨⟨r, he⟩, rfl⟩
    exact .newIntArray he

theorem hasType_newBooleanArray {e : Expr Unit} :
    HasType s (.node n () (.newBooleanArray e)) i ↔
      (∃ r, HasType s e ⟨.int, r⟩) ∧ i = ⟨.booleanArray, none⟩ := by
  constructor
  · intro h
    cases h with
    | newBooleanArray he => exact ⟨⟨_, he⟩, rfl⟩
  · rintro ⟨⟨r, he⟩, rfl⟩
    exact .newBooleanArray he

theorem hasType_newObject {cls : Name} :
    HasType s (.node n () (.newObject cls)) i ↔
      ∃ c, (s.table.find? cls = some c ∧ s.table.isMain c = false) ∧
        i = ⟨.object cls, some (.cls c)⟩ := by
  constructor
  · intro h
    cases h with
    | newObject hc hm => exact ⟨_, ⟨hc, hm⟩, rfl⟩
  · rintro ⟨c, ⟨hc, hm⟩, rfl⟩
    exact .newObject hc hm

theorem hasType_not {e : Expr Unit} :
    HasType s (.node n () (.not e)) i ↔
      (∃ r, HasType s e ⟨.boolean, r⟩) ∧ i = ⟨.boolean, none⟩ := by
  constructor
  · intro h
    cases h with
    | not he => exact ⟨⟨_, he⟩, rfl⟩
  · rintro ⟨⟨r, he⟩, rfl⟩
    exact .not he

theorem hasType_bracket {e : Expr Unit} :
    HasType s (.node n () (.bracket e)) i ↔ HasType s e i :=
  ⟨fun h => (by cases h; assumption), .bracket⟩

theorem argsFit_cons {ty : Ty} {tys : List Ty} {e : Expr Unit} {es : List (Expr Unit)} :
    ArgsFit s (ty :: tys) (e :: es) ↔
      (∃ j, HasType s e j ∧ Assignable s.table ty j.ty) ∧ ArgsFit s tys es := by
  constructor
  · intro h
    cases h with
    | cons he ha hes => exact ⟨⟨_, he, ha⟩, hes⟩
  · rintro ⟨⟨j, he, ha⟩, hes⟩
    exact .cons he ha hes

theorem ArgsFit.length_eq {tys : List Ty} {es : List (Expr Unit)} (h : ArgsFit s tys es) :
    tys.length = es.length := by
  induction es generalizing tys with
  | nil => cases h; rfl
  | cons e es ih =>
    cases h with
    | cons _ _ hes => rw [List.length_cons, ih hes, List.length_cons]

end Inversion

structure ExprTyped (s : Scope) (e : Expr Unit) (x : Found (Expr Note)) : Prop where
  bare : x.value.bare = e
  note : ∀ i, x.value.note = some i ↔ HasType s e i
  clean : OnlyUninitialized x.findings ↔ x.value.note.isSome = true
  recorded : x.value.note.isSome = true → ExprRecorded s x.value

structure FormTyped (s : Scope) (line : Nat) (form : ExprForm Unit)
    (x : Found (ExprForm Note × Note)) : Prop where
  bare : x.value.1.bare = form
  note : ∀ i, x.value.2 = some i ↔ HasType s (.node line () form) i
  clean : OnlyUninitialized x.findings ↔ x.value.2.isSome = true
  inside : x.value.2.isSome = true → ∀ y ∈ x.value.1.all, NoteFits s y

structure ArgsTyped (s : Scope) (tys : List Ty) (es : List (Expr Unit))
    (x : Found (List (Expr Note) × Bool)) : Prop where
  bare : x.value.1.map Expr.bare = es
  fit : x.value.2 = true ↔ ArgsFit s tys es
  clean : OnlyUninitialized x.findings ↔ x.value.2 = true
  inside : x.value.2 = true → ∀ y ∈ allArgs x.value.1, NoteFits s y

theorem ExprTyped.of_form {s : Scope} {line : Nat} {form : ExprForm Unit}
    {x : Found (ExprForm Note × Note)} (h : FormTyped s line form x) :
    ExprTyped s (.node line () form) (do
      let (form, note) ← x
      return .node line note form) := by
  refine ⟨congrArg (Expr.node line ()) h.bare, h.note, ?_, ?_⟩
  · rw [Found.findings_bind, Found.findings_pure, List.append_nil]
    exact h.clean
  · intro some y hy
    rcases List.mem_cons.mp hy with rfl | hy
    · obtain ⟨i, hi⟩ := Option.isSome_iff_exists.mp some
      refine ⟨i, hi, fun j => ?_⟩
      have hbare : (Expr.node line x.value.2 x.value.1).bare = .node line () form :=
        congrArg (Expr.node line ()) h.bare
      have hi' : x.value.2 = Option.some i := hi
      rw [hbare, ← h.note, hi', Option.some.injEq, eq_comm]
    · exact h.inside some y hy

theorem checkArg_checks {s s₀ : Scope} (forest : s₀.table.Forest) (h : Remarked s s₀) (line : Nat)
    (m : Name) (position : Nat) (ty : Ty) (e : Expr Note) :
    Checks e.note (checkArg s line m position ty e) fun i => Assignable s₀.table ty i.ty := by
  simpa only [h.assignable_iff forest] using checkArg_fits s line m position ty e

theorem exists_ty_iff {P : ExprInfo → Prop} {ty : Ty} :
    (∃ i, P i ∧ i.ty = ty) ↔ ∃ r, P ⟨ty, r⟩ :=
  ⟨fun ⟨i, hi, hty⟩ => ⟨i.ref, hty ▸ hi⟩, fun ⟨_, hr⟩ => ⟨_, hr, rfl⟩⟩

section Forms
variable {s s₀ : Scope} {line : Nat} {a b : Expr Unit}

/-- A form that has no type, and for which a fault was found. -/
theorem FormTyped.of_fault {form : ExprForm Unit} {form' : ExprForm Note} {fs : List Finding}
    (bare : form'.bare = form) (untyped : ∀ i, ¬ HasType s₀ (.node line () form) i)
    (fault : ¬ OnlyUninitialized fs) : FormTyped s₀ line form ⟨(form', none), fs⟩ :=
  ⟨bare, fun i => ⟨fun h => (by cases h), fun h => absurd h (untyped i)⟩,
    ⟨fun h => absurd h fault, fun h => (by cases h)⟩, fun h => (by cases h)⟩

theorem FormTyped.of_leaf {form : ExprForm Unit} {form' : ExprForm Note} {i : ExprInfo}
    {fs : List Finding} (bare : form'.bare = form) (none : form'.all = [])
    (typed : ∀ j, HasType s₀ (.node line () form) j ↔ j = i) (clean : OnlyUninitialized fs) :
    FormTyped s₀ line form ⟨(form', some i), fs⟩ := by
  refine ⟨bare, fun j => ?_, ⟨fun _ => rfl, fun _ => clean⟩, fun _ y hy => ?_⟩
  · rw [typed j, Option.some.injEq, eq_comm]
  · rw [none] at hy
    cases hy

theorem binary_typed {op : BinOp} (ha : ExprTyped s₀ a (typeExpr s a))
    (hb : ExprTyped s₀ b (typeExpr s b)) :
    FormTyped s₀ line (.binary op a b) (typeForm s line (.binary op a b)) := by
  have bare := typeForm_bare s line (.binary op a b)
  have settled := typeForm_settled s line (.binary op a b)
  rw [typeForm] at bare settled ⊢
  refine ⟨bare, ?_, settled.clean, ?_⟩
  · intro i
    simp only [Found.value_bind, Found.value_pure, typeBinary_value, ha.note, hb.note,
      hasType_binary]
  · intro some y hy
    obtain ⟨first, second⟩ := typeBinary_noted some
    rcases List.mem_append.mp hy with hy | hy
    · exact ha.recorded first y hy
    · exact hb.recorded second y hy

/-- The forms with one operand of a fixed type. -/
theorem unary_typed {form : ExprForm Unit} {wrap : Expr Note → ExprForm Note} {operand result : Ty}
    {error : Ty → SemanticError} (ha : ExprTyped s₀ a (typeExpr s a))
    (bare : ∀ x, x.bare = a → (wrap x).bare = form) (inside : ∀ x, (wrap x).all = x.all)
    (fault : ∀ ty, Fault (error ty))
    (rule : ∀ i, HasType s₀ (.node line () form) i ↔
      (∃ r, HasType s₀ a ⟨operand, r⟩) ∧ i = ⟨result, none⟩) :
    FormTyped s₀ line form (do
      let x ← typeExpr s a
      let ok ← expect line x operand error
      return (wrap x, noteIf ok result none)) := by
  have check := expect_checks line (typeExpr s a).value operand error fault
  refine ⟨bare _ ha.bare, ?_, (unary_settled (typeExpr_settled s a) inside fault).clean, ?_⟩
  · intro i
    simp only [Found.value_bind, Found.value_pure, noteIf_eq_some, check.value, exists_ty_iff,
      ha.note, rule]
  · intro some y hy
    simp only [Found.value_bind, Found.value_pure, isSome_noteIf] at some
    exact ha.recorded (check.isSome some) y (inside _ ▸ hy)

theorem lookup_typed (ha : ExprTyped s₀ a (typeExpr s a)) (hb : ExprTyped s₀ b (typeExpr s b)) :
    FormTyped s₀ line (.lookup a b) (typeForm s line (.lookup a b)) := by
  have bare := typeForm_bare s line (.lookup a b)
  have settled := typeForm_settled s line (.lookup a b)
  rw [typeForm] at bare settled ⊢
  have value := elementTy_value line (typeExpr s a).value
  cases hel : (elementTy line (typeExpr s a).value).value with
  | none =>
    simp only [Found.bind_eq, Found.pure_eq, hel, List.append_nil] at bare settled ⊢
    refine .of_fault bare ?_ (settled.fault Bool.false_ne_true)
    intro i hi
    obtain ⟨array, r, element, hta, harr, _⟩ := hasType_lookup.mp hi
    have some := (value element).mpr ⟨_, (ha.note _).mpr hta, harr⟩
    rw [hel] at some
    cases some
  | some element =>
    obtain ⟨⟨array, r⟩, hi, harr⟩ := (value element).mp hel
    have check := expect_checks line (typeExpr s b).value .int .indexMustBeInt
      fun ty x => by simp
    simp only [Found.bind_eq, Found.pure_eq, hel, List.append_nil] at bare settled ⊢
    refine ⟨bare, ?_, settled.clean, ?_⟩
    · intro i
      simp only [noteIf_eq_some, check.value, exists_ty_iff, hb.note, hasType_lookup, ← ha.note]
      constructor
      · rintro ⟨hint, rfl⟩
        exact ⟨array, r, element, hi, harr, hint, rfl⟩
      · rintro ⟨array', r', element', hi', harr', hint, rfl⟩
        obtain ⟨rfl, rfl⟩ := ExprInfo.mk.inj (Option.some.inj (hi.symm.trans hi'))
        obtain rfl := Option.some.inj (harr.symm.trans harr')
        exact ⟨hint, rfl⟩
    · intro some y hy
      rw [isSome_noteIf] at some
      rcases List.mem_append.mp hy with hy | hy
      · exact ha.recorded (by rw [hi]; rfl) y hy
      · exact hb.recorded (check.isSome some) y hy

theorem length_typed (ha : ExprTyped s₀ a (typeExpr s a)) :
    FormTyped s₀ line (.length a) (typeForm s line (.length a)) := by
  have settled := typeForm_settled s line (.length a)
  rw [typeForm] at settled ⊢
  have value := elementTy_value line (typeExpr s a).value
  simp only [Found.bind_eq, Found.pure_eq, List.append_nil] at settled ⊢
  refine ⟨congrArg ExprForm.length ha.bare, ?_, settled.clean, ?_⟩
  · intro i
    simp only [noteIf_eq_some, hasType_length, Option.isSome_iff_exists, value]
    constructor
    · rintro ⟨⟨element, ⟨array, r⟩, hi, harr⟩, rfl⟩
      exact ⟨array, r, element, (ha.note _).mp hi, harr, rfl⟩
    · rintro ⟨array, r, element, hta, harr, rfl⟩
      exact ⟨⟨element, _, (ha.note _).mpr hta, harr⟩, rfl⟩
  · intro some y hy
    rw [isSome_noteIf] at some
    exact ha.recorded (elementTy_noted some) y hy

theorem name_typed (forest : s₀.table.Forest) (h : Remarked s s₀) {x : Name} :
    FormTyped s₀ line (.name x) (typeForm s line (.name x)) := by
  rw [typeForm]
  have resolve := resolve_decides forest h line x
  cases hv : (s.resolve line x).value with
  | none =>
    simp only [Found.bind_eq, Found.pure_eq, hv, List.append_nil]
    refine .of_fault rfl ?_ ?_
    · intro i hi
      obtain ⟨v, ty, hd, _⟩ := hasType_name.mp hi
      have some := (resolve.value (v, ty)).mpr hd
      rw [hv] at some
      cases some
    · rw [resolve.clean, hv]
      exact Bool.false_ne_true
  | some vt =>
    obtain ⟨v, ty⟩ := vt
    simp only [Found.bind_eq, Found.pure_eq, hv, List.append_nil]
    refine .of_leaf rfl rfl ?_ ?_
    · intro j
      simp only [hasType_name, ← fun v ty => resolve.value (v, ty), hv, Option.some.injEq,
        Prod.mk.injEq]
      constructor
      · rintro ⟨v', ty', ⟨rfl, rfl⟩, rfl⟩
        rfl
      · exact fun heq => ⟨v, ty, ⟨rfl, rfl⟩, heq⟩
    · rw [onlyUninitialized_append, resolve.clean, hv]
      exact ⟨rfl, checkInitialized_only s line x v⟩

theorem this_typed (h : Remarked s s₀) :
    FormTyped s₀ line .this (typeForm s line .this) := by
  rw [typeForm, h.place]
  cases hm : s₀.place.method with
  | none =>
    have fault : Fault .thisInMain := by intro y; simp
    simp only [Found.bind_eq, Found.pure_eq, List.append_nil]
    refine .of_fault rfl ?_ (fault.not_uninitialized line)
    intro i hi
    have some := (hasType_this.mp hi).1
    rw [hm] at some
    cases some
  | some m =>
    refine .of_leaf rfl rfl ?_ onlyUninitialized_nil
    intro j
    rw [hasType_this, hm, h.table.outline.nameOf]
    exact and_iff_right rfl

theorem newObject_typed (h : Remarked s s₀) {cls : Name} :
    FormTyped s₀ line (.newObject cls) (typeForm s line (.newObject cls)) := by
  rw [typeForm]
  have made := instantiate_decides h line cls
  simp only [Found.bind_eq, Found.pure_eq, List.append_nil]
  refine ⟨rfl, ?_, ?_, fun _ y hy => (by cases hy)⟩
  · intro i
    simp only [Option.map_eq_some_iff, made.value, hasType_newObject]
    exact exists_congr fun c => and_congr_right fun _ => eq_comm
  · rw [made.clean, Option.isSome_map]

theorem bracket_typed (ha : ExprTyped s₀ a (typeExpr s a)) :
    FormTyped s₀ line (.bracket a) (typeForm s line (.bracket a)) := by
  rw [typeForm]
  simp only [Found.bind_eq, Found.pure_eq, List.append_nil]
  exact ⟨congrArg ExprForm.bracket ha.bare, fun i => (ha.note i).trans hasType_bracket.symm,
    ha.clean, ha.recorded⟩

/-- The rule for a message whose receiver has a type and whose method is known. -/
theorem hasType_send_of_callee (forest : s₀.table.Forest) (h : Remarked s s₀) {m : Name}
    {args : List (Expr Unit)} {info i : ExprInfo} (receiver : ∀ j, HasType s₀ a j ↔ j = info)
    {ref : MethodRef} {k : Method} (calls : Calls s₀ info.ty m ref)
    (hk : s.table.method? ref = some k) :
    HasType s₀ (.node line () (.send a m args)) i ↔
      ArgsFit s₀ k.paramTys args ∧ i = ⟨k.returnTy, some (.method ref)⟩ := by
  obtain ⟨k₀, hk₀, declared⟩ := h.table.exists_method? hk
  have paramTys : k₀.paramTys = k.paramTys := Method.paramTys_eq_of_declared declared
  have returnTy : k₀.returnTy = k.returnTy := by
    have heq := congrArg Method.returnTy declared
    exact heq
  rw [hasType_send]
  constructor
  · rintro ⟨ty, r, ref', k', hrec, calls', hk', hfit, rfl⟩
    obtain rfl := (receiver _).mp hrec
    obtain rfl := calls.unique forest calls'
    obtain rfl := Option.some.inj (hk₀.symm.trans hk')
    exact ⟨paramTys ▸ hfit, by rw [returnTy]⟩
  · rintro ⟨hfit, rfl⟩
    exact ⟨info.ty, info.ref, ref, k₀, (receiver _).mpr rfl, calls, hk₀, paramTys ▸ hfit,
      by rw [returnTy]⟩

theorem send_typed (forest : s₀.table.Forest) (h : Remarked s s₀) {m : Name}
    {args : List (Expr Unit)} (ha : ExprTyped s₀ a (typeExpr s a))
    (hargs : ∀ tys, tys.length = args.length →
      ArgsTyped s₀ tys args (typeArgs s line m 1 tys args)) :
    FormTyped s₀ line (.send a m args) (typeForm s line (.send a m args)) := by
  have bare := typeForm_bare s line (.send a m args)
  have settled := typeForm_settled s line (.send a m args)
  rw [typeForm] at bare settled ⊢
  cases hi : (typeExpr s a).value.note with
  | none =>
    simp only [Found.bind_eq, Found.pure_eq, hi, List.append_nil] at bare settled ⊢
    refine .of_fault bare ?_ (settled.fault Bool.false_ne_true)
    intro i hsend
    obtain ⟨ty, r, _, _, hrec, _⟩ := hasType_send.mp hsend
    rw [← ha.note, hi] at hrec
    cases hrec
  | some info =>
    have receiver : ∀ j, HasType s₀ a j ↔ j = info := by
      intro j
      rw [← ha.note, hi, Option.some.injEq, eq_comm]
    have callee := callee_decides forest h line info.ty m
    cases hc : (s.callee line info.ty m).value with
    | none =>
      simp only [Found.bind_eq, Found.pure_eq, hi, hc, List.append_nil] at bare settled ⊢
      refine .of_fault bare ?_ (settled.fault Bool.false_ne_true)
      intro i hsend
      obtain ⟨ty, r, ref, k₀, hrec, hcalls, hk₀, _⟩ := hasType_send.mp hsend
      obtain ⟨k, hk, _⟩ := h.table.symm.exists_method? hk₀
      obtain rfl := (receiver _).mp hrec
      have some := (callee.value (ref, k)).mpr ⟨hcalls, hk⟩
      rw [hc] at some
      cases some
    | some rk =>
      obtain ⟨ref, k⟩ := rk
      obtain ⟨hcalls, hk⟩ := (callee.value (ref, k)).mp hc
      have rule : ∀ i, HasType s₀ (.node line () (.send a m args)) i ↔
          ArgsFit s₀ k.paramTys args ∧ i = ⟨k.returnTy, some (.method ref)⟩ :=
        fun _ => hasType_send_of_callee forest h receiver hcalls hk
      by_cases len : k.paramTys.length = args.length
      · have typed := hargs k.paramTys len
        simp only [Found.bind_eq, Found.pure_eq, hi, hc, if_pos len,
          List.append_nil] at bare settled ⊢
        refine ⟨bare, ?_, settled.clean, ?_⟩
        · intro i
          rw [noteIf_eq_some, typed.fit, rule]
        · intro some y hy
          rw [isSome_noteIf] at some
          rcases List.mem_append.mp hy with hy | hy
          · exact ha.recorded (by rw [hi]; rfl) y hy
          · exact typed.inside some y hy
      · simp only [Found.bind_eq, Found.pure_eq, hi, hc, if_neg len,
          List.append_nil] at bare settled ⊢
        refine .of_fault bare ?_ (settled.fault Bool.false_ne_true)
        exact fun i hsend => len ((rule i).mp hsend).1.length_eq

theorem args_nil_typed {m : Name} {position : Nat} :
    ArgsTyped s₀ [] [] (typeArgs s line m position [] []) := by
  rw [typeArgs]
  exact ⟨rfl, ⟨fun _ => .nil, fun _ => rfl⟩, ⟨fun _ => rfl, fun _ => onlyUninitialized_nil⟩,
    fun _ y hy => (by cases hy)⟩

theorem args_cons_typed (forest : s₀.table.Forest) (h : Remarked s s₀) {m : Name} {position : Nat}
    {ty : Ty} {tys : List Ty} {args : List (Expr Unit)} (ha : ExprTyped s₀ a (typeExpr s a))
    (hargs : ArgsTyped s₀ tys args (typeArgs s line m (position + 1) tys args)) :
    ArgsTyped s₀ (ty :: tys) (a :: args)
      (typeArgs s line m position (ty :: tys) (a :: args)) := by
  have settled := typeArgs_settled s line m (a :: args) position (ty :: tys)
  rw [typeArgs] at settled ⊢
  have check := checkArg_checks forest h line m position ty (typeExpr s a).value
  simp only [Found.bind_eq, Found.pure_eq, List.append_nil, List.headD_cons,
    List.tail_cons] at settled ⊢
  refine ⟨?_, ?_, settled.clean, ?_⟩
  · rw [List.map_cons, ha.bare, hargs.bare]
  · rw [Bool.and_eq_true, check.value, hargs.fit, argsFit_cons]
    simp only [ha.note]
  · intro ok y hy
    obtain ⟨first, rest⟩ := (Bool.and_eq_true _ _).mp ok
    rcases List.mem_append.mp hy with hy | hy
    · exact ha.recorded (check.isSome first) y hy
    · exact hargs.inside rest y hy

end Forms

section Decision
variable {s s₀ : Scope}

mutual

theorem typeExpr_typed (forest : s₀.table.Forest) (h : Remarked s s₀) :
    ∀ e : Expr Unit, ExprTyped s₀ e (typeExpr s e)
  | .node line _ form => by
    rw [typeExpr]
    exact .of_form (typeForm_typed forest h line form)

theorem typeForm_typed (forest : s₀.table.Forest) (h : Remarked s s₀) (line : Nat) :
    ∀ form : ExprForm Unit, FormTyped s₀ line form (typeForm s line form)
  | .binary _ a b => binary_typed (typeExpr_typed forest h a) (typeExpr_typed forest h b)
  | .lookup a i => lookup_typed (typeExpr_typed forest h a) (typeExpr_typed forest h i)
  | .length a => length_typed (typeExpr_typed forest h a)
  | .send r _ args =>
    send_typed forest h (typeExpr_typed forest h r) fun tys len =>
      typeArgs_typed forest h line _ args 1 tys len
  | .int _ => by
    rw [typeForm]
    exact .of_leaf rfl rfl (fun _ => hasType_int) onlyUninitialized_nil
  | .tt => by
    rw [typeForm]
    exact .of_leaf rfl rfl (fun _ => hasType_tt) onlyUninitialized_nil
  | .ff => by
    rw [typeForm]
    exact .of_leaf rfl rfl (fun _ => hasType_ff) onlyUninitialized_nil
  | .name _ => name_typed forest h
  | .this => this_typed h
  | .newIntArray n => by
    rw [typeForm]
    exact unary_typed (typeExpr_typed forest h n) (fun x hx => hx ▸ rfl) (fun _ => rfl)
      (fun ty x => by simp) fun _ => hasType_newIntArray
  | .newBooleanArray n => by
    rw [typeForm]
    exact unary_typed (typeExpr_typed forest h n) (fun x hx => hx ▸ rfl) (fun _ => rfl)
      (fun ty x => by simp) fun _ => hasType_newBooleanArray
  | .newObject _ => newObject_typed h
  | .not e => by
    rw [typeForm]
    exact unary_typed (typeExpr_typed forest h e) (fun x hx => hx ▸ rfl) (fun _ => rfl)
      (fun ty x => by simp) fun _ => hasType_not
  | .bracket e => bracket_typed (typeExpr_typed forest h e)

theorem typeArgs_typed (forest : s₀.table.Forest) (h : Remarked s s₀) (line : Nat) (m : Name) :
    ∀ (args : List (Expr Unit)) (position : Nat) (tys : List Ty), tys.length = args.length →
      ArgsTyped s₀ tys args (typeArgs s line m position tys args)
  | [], _, [], _ => args_nil_typed
  | a :: args, position, _ :: tys, len =>
    args_cons_typed forest h (typeExpr_typed forest h a)
      (typeArgs_typed forest h line m args (position + 1) tys (Nat.succ.inj len))

end

end Decision

end MiniJava.Typing
