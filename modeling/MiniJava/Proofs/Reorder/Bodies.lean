import MiniJava.Proofs.Declared.Hierarchy
import MiniJava.Proofs.Reorder.Typing
import MiniJava.Proofs.Steps.Order

/-!
# Bodies under other class numbers

A class is checked in two tables that differ in the numbers of the classes and in the marks that the
bodies of other classes have left. Where no field has to be assigned before it is read, marks are set
on parameters and local variables only, so checking a class neither changes the other classes nor
sees their marks. If nothing is reported in the one table, nothing is reported in the other.
-/
namespace MiniJava

def Method.unmarked (m : Method) : Method := { m with locals := m.locals.map Local.declared }

/-- A class without the marks of its parameters and local variables. -/
def Class.unmarked (k : Class) : Class :=
  { k with
    methods := k.methods.map Method.unmarked
    entry := k.entry.map EntryPoint.declared }

theorem Class.declared_unmarked (k : Class) : k.unmarked.declared = k.declared := by
  have method : Method.declared ∘ Method.unmarked = Method.declared := by
    funext m
    simp only [Function.comp_apply, Method.declared, Method.unmarked, List.map_map]
    rfl
  have entry : EntryPoint.declared ∘ EntryPoint.declared = EntryPoint.declared := by
    funext e
    simp only [Function.comp_apply, EntryPoint.declared, List.map_map]
    rfl
  simp only [Class.declared, Class.unmarked, List.map_map, Option.map_map, method, entry]

namespace ClassTable

/-- The tables differ in marks of parameters and local variables only. -/
def SameUnmarked (t u : ClassTable) : Prop := t.map Class.unmarked = u.map Class.unmarked

namespace SameUnmarked
variable {t u v : ClassTable}

theorem refl (t : ClassTable) : SameUnmarked t t := rfl

theorem get? (h : SameUnmarked t u) (c : ClassId) :
    (t.get? c).map Class.unmarked = (u.get? c).map Class.unmarked := by
  rw [← get?_map, h, get?_map]

theorem declarations (h : SameUnmarked t u) : SameDeclarations t u := by
  have same : (t.map Class.unmarked).map Class.declared =
      (u.map Class.unmarked).map Class.declared := by rw [h]
  have absorbed : Class.declared ∘ Class.unmarked = Class.declared :=
    funext Class.declared_unmarked
  rw [map_map, map_map, absorbed] at same
  exact same

theorem fields (h : SameUnmarked t u) (c : ClassId) : t.fields c = u.fields c := by
  have same := congrArg (fun k => (Option.map Class.fields k).getD []) (h.get? c)
  rw [Option.map_map, Option.map_map] at same
  exact same

end SameUnmarked

/-- A change of one class that is none changes nothing. -/
theorem modify_eq_self {t : ClassTable} {c : ClassId} {f : Class → Class}
    (same : ∀ k, t.get? c = some k → f k = k) : t.modify c f = t := by
  rw [← map_id (t.modify c f), map_modify_unseen id t c same, map_id]

/-- A mark that is set already changes nothing. -/
theorem modifyField_of_initialized {t : ClassTable} {r : FieldRef}
    (initialized : ∀ f ∈ t.fields r.cls, f.initialized = true) :
    t.modifyField r (fun f => { f with initialized := true }) = t := by
  have set : ∀ {f : Field}, f.initialized = true → { f with initialized := true } = f := by
    rintro ⟨_, _, _, _, _⟩ rfl
    rfl
  refine modify_eq_self fun k hk => ?_
  have fields : k.fields.modify r.index (fun f => { f with initialized := true }) = k.fields := by
    refine List.ext_getElem? fun j => ?_
    rw [List.getElem?_modify]
    refine (Option.map_congr fun f hf => ?_).trans (congrFun Option.map_id _)
    have there : f ∈ t.fields r.cls := by
      rw [ClassTable.fields, hk]
      exact List.mem_of_getElem? hf
    split
    · exact set (initialized f there)
    · rfl
  rw [fields]

end ClassTable

section Moved
variable (σ : ClassId → ClassId)

open Check

/-- A statement with other numbers in all its notes. -/
def Stmt.moved (s : Stmt Note Target) : Stmt Note Target :=
  s.map (Option.map (ExprInfo.moved σ)) (Option.map (VarRef.moved σ))

def movedBody (ss : List (Stmt Note Target)) : List (Stmt Note Target) :=
  mapBody (Option.map (ExprInfo.moved σ)) (Option.map (VarRef.moved σ)) ss

def MethodDecl.moved (m : MethodDecl .checked) : MethodDecl .checked :=
  { m with
    note := m.note.map (MethodRef.moved σ)
    body := movedBody σ m.body
    result := m.result.moved σ }

/-- A class with other numbers in all the notes on it. -/
def ClassDecl.moved (c : ClassDecl .checked) : ClassDecl .checked :=
  { c with
    note := c.note.map σ
    methods := c.methods.map (MethodDecl.moved σ) }

def MainClass.moved (m : MainClass .checked) : MainClass .checked :=
  { m with body := movedBody σ m.body }

end Moved

namespace Check

open ClassTable

/-- A table that nothing has been reported of, without a limit. -/
def State.quiet (t : ClassTable) : State := ⟨t, .empty none⟩

/-- Findings are added only. -/
def Adds {α : Type} (x : CheckM α) : Prop := ∀ st, ∃ fs, (x st).2.report = st.report.addAll fs

theorem Adds.bind {α β : Type} {x : CheckM α} {f : α → CheckM β} (hx : Adds x)
    (hf : ∀ a, Adds (f a)) : Adds (x >>= f) := by
  intro st
  obtain ⟨fs, hfs⟩ := hx st
  obtain ⟨gs, hgs⟩ := hf (x st).1 (x st).2
  refine ⟨fs ++ gs, ?_⟩
  rw [Report.addAll_append, ← hfs]
  exact hgs

theorem quiet_addAll {t : ClassTable} {fs : List Finding}
    (h : ((State.quiet t).report.addAll fs).findings = []) : fs = [] := by
  rw [Report.findings_addAll_of_unlimited rfl] at h
  exact h

/-- If two parts report nothing, the first one reports nothing. -/
theorem Adds.quiet {α β : Type} {x : CheckM α} {f : α → CheckM β} (hx : Adds x)
    (hf : ∀ a, Adds (f a)) {t : ClassTable}
    (clean : ((x >>= f) (.quiet t)).2.report.findings = []) :
    (x (.quiet t)).2 = .quiet (x (.quiet t)).2.table := by
  obtain ⟨fs, hfs⟩ := hx (.quiet t)
  obtain ⟨gs, hgs⟩ := hf (x (.quiet t)).1 (x (.quiet t)).2
  have both : ((State.quiet t).report.addAll (fs ++ gs)).findings = [] := by
    rw [Report.addAll_append, ← hfs, ← hgs]
    exact clean
  obtain ⟨rfl, _⟩ := List.append_eq_nil_iff.mp (quiet_addAll both)
  exact congrArg (State.mk _) hfs

/-- If the first computation reports nothing, neither does the second one from a related table; its
value is that of the first one under `f`, and the tables they leave are related. -/
structure Parallel (R : ClassTable → ClassTable → Prop) {α β : Type} (f : α → β) (x : CheckM α)
    (y : CheckM β) : Prop where
  adds : Adds x
  run : ∀ T U, R T U → (x (.quiet T)).2.report.findings = [] →
    ∃ U', y (.quiet U) = (f (x (.quiet T)).1, .quiet U') ∧ R (x (.quiet T)).2.table U'

namespace Parallel
variable {R : ClassTable → ClassTable → Prop} {α β γ δ : Type}

theorem pure (f : α → β) (a : α) : Parallel R f (Pure.pure a) (Pure.pure (f a)) :=
  ⟨fun _ => ⟨[], rfl⟩, fun _ U h _ => ⟨U, rfl, h⟩⟩

theorem bind {f : α → β} {x : CheckM α} {y : CheckM β} (h : Parallel R f x y) {g : γ → δ}
    {k : α → CheckM γ} {l : β → CheckM δ} (h' : ∀ a, Parallel R g (k a) (l (f a))) :
    Parallel R g (x >>= k) (y >>= l) := by
  refine ⟨h.adds.bind fun a => (h' a).adds, ?_⟩
  intro T U related clean
  have between := h.adds.quiet (fun a => (h' a).adds) clean
  obtain ⟨U', first, related'⟩ := h.run T U related (between ▸ rfl)
  have rest := (h' (x (.quiet T)).1).run _ U' related'
  rw [← between] at rest
  obtain ⟨U'', second, related''⟩ := rest clean
  refine ⟨U'', ?_, related''⟩
  calc (y >>= l) (.quiet U) = l (y (.quiet U)).1 (y (.quiet U)).2 := rfl
    _ = l (f (x (.quiet T)).1) (.quiet U') := by rw [first]
    _ = _ := second

theorem take {f : α → β} {find : ClassTable → Found α} {find' : ClassTable → Found β}
    (h : ∀ T U, R T U → Found.Transfers f (find T) (find' U)) :
    Parallel R f (Check.take find) (Check.take find') := by
  refine ⟨fun st => ⟨(find st.table).findings, rfl⟩, ?_⟩
  intro T U related clean
  have same := h T U related (quiet_addAll clean)
  refine ⟨U, ?_, related⟩
  change ((find' U).value, State.mk U ((State.quiet U).report.addAll (find' U).findings)) = _
  rw [same]
  rfl

/-- Without a limit the report is never full. -/
theorem ifFull {f : α → β} {x : CheckM α} {y : CheckM β} (h : Parallel R f x y) (a : α) (b : β) :
    Parallel R f (do if ← isFull then return a else x) (do if ← isFull then return b else y) := by
  constructor
  · intro st
    rw [ifFull_apply]
    split
    · exact ⟨[], rfl⟩
    · exact h.adds st
  · exact h.run

end Parallel

section Class
variable (σ : Equiv.Perm ClassId) (t u T₀ U₀ : ClassTable) (c : ClassId)

/-- Two tables while a class is checked: those before the bodies are `t` and `u`, and those before
this class `T₀` and `U₀`. The marks of the class are the same in both. -/
structure Alongside (T U : ClassTable) : Prop where
  left : SameUnmarked T t
  right : SameUnmarked U u
  own : U.get? (σ c) = (T.get? c).map (Class.moved σ)
  apart : ∀ d, d ≠ c → T.get? d = T₀.get? d
  apart' : ∀ d, d ≠ σ c → U.get? d = U₀.get? d

end Class

/-- A place in a class. -/
inductive Place.Inside (c : ClassId) : Place → Prop
  | main : Place.Inside c ⟨c, none⟩
  | method (i : Nat) : Place.Inside c ⟨c, some ⟨c, i⟩⟩

section Class
variable {σ : Equiv.Perm ClassId} {t u T₀ U₀ T U : ClassTable} {c : ClassId}

theorem Alongside.counterpart (twins : Twins σ t u) (h : Alongside σ t u T₀ U₀ c T U) {p : Place}
    (inside : p.Inside c) : Counterpart σ t u ⟨T, p⟩ ⟨U, p.moved σ⟩ where
  left := h.left.declarations
  right := h.right.declarations
  place := rfl
  locals := by
    cases inside with
    | main =>
      have entry : (U.get? (σ c)).bind (·.entry) = (T.get? c).bind (·.entry) := by
        rw [h.own]
        cases T.get? c <;> rfl
      change (((U.get? (σ c)).bind (·.entry)).map (·.locals)).getD [] = _
      rw [entry]
      rfl
    | method i =>
      have methods : U.methods (σ c) = (T.methods c).map (Method.moved σ) := by
        rw [methods, h.own, methods]
        cases T.get? c <;> rfl
      change (((U.methods (σ c))[i]?).map (·.locals)).getD [] = _
      rw [methods, List.getElem?_map, Option.map_map]
      rfl
  field? r := by
    rw [ClassTable.field?, FieldRef.moved, h.right.fields, twins.renumbered.lookups.fields,
      ClassTable.field?, h.left.fields]

theorem markLocal_eq {p : Place} (inside : p.Inside c) (i : Nat) (T : ClassTable) :
    ∃ f : Class → Class, markLocal T p i = T.modify c f ∧
      (∀ {σ : Equiv.Perm ClassId} {U : ClassTable},
        markLocal U (p.moved σ) i = U.modify (σ c) f) ∧
      (∀ k, (f k).unmarked = k.unmarked) ∧
      ∀ {σ : Equiv.Perm ClassId} (k : Class), f (k.moved σ) = (f k).moved σ := by
  have locals : ∀ ls : List Local,
      (ls.modify i setInit).map Local.declared = ls.map Local.declared :=
    fun ls => map_modify_eq Local.declared setInit (fun _ => rfl) ls i
  cases inside with
  | main =>
    refine ⟨_, rfl, rfl, fun k => ?_, fun k => rfl⟩
    obtain ⟨_, _, _, _, _, _, _ | e⟩ := k
    · rfl
    · simp only [Class.unmarked, Option.map_some, EntryPoint.declared, locals]
  | method j =>
    refine ⟨_, rfl, rfl, fun k => ?_, fun {σ} k => ?_⟩
    · have method : ∀ m : Method,
          ({ m with locals := m.locals.modify i setInit } : Method).unmarked = m.unmarked :=
        fun m => by simp only [Method.unmarked, locals]
      simp only [Class.unmarked, map_modify_eq Method.unmarked _ method]
    · simp only [Class.moved]
      rw [map_modify_comm (g := Method.moved σ)]
      exact fun _ => rfl

/-- A mark of the class is set in both tables, and a field has its mark already. -/
theorem Alongside.mark (twins : Twins σ t u) (h : Alongside σ t u T₀ U₀ c T U) {p : Place}
    (inside : p.Inside c) (v : VarRef) :
    Alongside σ t u T₀ U₀ c (markInitialized T p v)
      (markInitialized U (p.moved σ) (v.moved σ)) := by
  cases v with
  | loc i =>
    obtain ⟨f, left, right, unseen, comm⟩ := markLocal_eq inside i T
    rw [markInitialized, VarRef.moved, markInitialized, left, right]
    refine ⟨?_, ?_, ?_, fun d hd => ?_, fun d hd => ?_⟩
    · exact (map_modify_unseen Class.unmarked T c fun k _ => unseen k).trans h.left
    · exact (map_modify_unseen Class.unmarked U (σ c) fun k _ => unseen k).trans h.right
    · rw [get?_modify, get?_modify, h.own, Option.map_map, Option.map_map]
      refine Option.map_congr fun k _ => ?_
      simp only [Function.comp_apply, if_true]
      exact comm k
    · rw [get?_modify, ← h.apart d hd]
      simp [Ne.symm hd]
    · rw [get?_modify, ← h.apart' d hd]
      simp [Ne.symm hd]
  | field r =>
    rw [markInitialized, VarRef.moved, markInitialized, modifyField_of_initialized,
      modifyField_of_initialized]
    · exact h
    · intro f hf
      rw [h.right.fields, FieldRef.moved, twins.renumbered.lookups.fields] at hf
      exact twins.initialized _ f hf
    · intro f hf
      rw [h.left.fields] at hf
      exact twins.initialized _ f hf

section Statements
variable {p : Place} (twins : Twins σ t u) (inside : p.Inside c)
include twins inside

theorem mark_parallel (v : VarRef) :
    Parallel (Alongside σ t u T₀ U₀ c) id (mark p v) (mark (p.moved σ) (v.moved σ)) :=
  ⟨fun _ => ⟨[], rfl⟩, fun _ _ h _ => ⟨_, rfl, h.mark twins inside v⟩⟩

theorem typeIn_parallel (e : Expr Unit) :
    Parallel (Alongside σ t u T₀ U₀ c) (Expr.moved σ) (typeIn p e) (typeIn (p.moved σ) e) :=
  .take fun _ _ h => typeExpr_moved (h.counterpart twins inside) twins e

theorem checkCond_parallel (line : Nat) (cond : Expr Unit) :
    Parallel (Alongside σ t u T₀ U₀ c) (Expr.moved σ) (checkCond p line cond)
      (checkCond (p.moved σ) line cond) := by
  refine .take fun T U h => ?_
  refine (typeExpr_moved (h.counterpart twins inside) twins cond).bind fun cond => ?_
  rw [expect_moved]
  exact .after _ fun _ => .pure _ _

theorem checkStored_moved {T U : ClassTable} (h : Alongside σ t u T₀ U₀ c T U) (line : Nat)
    (ty : Ty) (value : Expr Note) :
    checkStored U line ty (value.moved σ) = checkStored T line ty value := by
  rw [checkStored, Expr.note_moved, checkStored]
  cases value.note with
  | none => rfl
  | some info =>
    dsimp only [Option.map_some, ExprInfo.moved]
    rw [(h.counterpart twins inside).assignable twins]

theorem checkAssign_parallel (line : Nat) (x : Name) (value : Expr Unit) :
    Parallel (Alongside σ t u T₀ U₀ c) (Prod.map (Option.map (VarRef.moved σ)) (Expr.moved σ))
      (checkAssign p line x value) (checkAssign (p.moved σ) line x value) := by
  refine (typeIn_parallel twins inside value).bind fun value => ?_
  refine (Parallel.take fun T U h =>
    (h.counterpart twins inside).resolve twins line x).bind fun found => ?_
  cases found with
  | none => exact .pure _ _
  | some found =>
    obtain ⟨v, ty⟩ := found
    refine (Parallel.take (f := id) fun T U h => ?_).bind fun _ => ?_
    · rw [checkStored_moved twins inside h]
      exact .refl _
    · exact (mark_parallel twins inside v).bind fun _ => .pure _ _

theorem checkArrayAssign_moved {T U : ClassTable} (h : Alongside σ t u T₀ U₀ c T U) (line : Nat)
    (x : Name) (index value : Expr Unit) :
    Found.Transfers
      (Prod.map (Option.map (VarRef.moved σ)) (Prod.map (Expr.moved σ) (Expr.moved σ)))
      (checkArrayAssign ⟨T, p⟩ line x index value)
      (checkArrayAssign ⟨U, p.moved σ⟩ line x index value) := by
  have there := h.counterpart twins inside
  refine (there.resolve twins line x).bind fun found => ?_
  cases found with
  | none =>
    exact .value (congrArg (none, ·) (Prod.ext (blank_moved σ index) (blank_moved σ value)).symm)
  | some found =>
    obtain ⟨v, ty⟩ := found
    dsimp only [Option.map_some, Prod.map_apply, id]
    rw [there.checkInitialized]
    refine .after _ fun _ => ?_
    cases ty.element? with
    | none => exact .fault
    | some element =>
      refine (typeExpr_moved there twins index).bind fun index => ?_
      rw [expect_moved]
      refine .after _ fun ok => ?_
      split
      · refine (typeExpr_moved there twins value).bind fun value => ?_
        rw [expect_moved]
        exact .after _ fun _ => .pure _ _
      · exact .value (congrArg (fun e => (some (v.moved σ), index.moved σ, e))
          (blank_moved σ value).symm)

theorem checkArrayAssign_parallel (line : Nat) (x : Name) (index value : Expr Unit) :
    Parallel (Alongside σ t u T₀ U₀ c)
      (Prod.map (Option.map (VarRef.moved σ)) (Prod.map (Expr.moved σ) (Expr.moved σ)))
      (take fun t => checkArrayAssign ⟨t, p⟩ line x index value)
      (take fun t => checkArrayAssign ⟨t, p.moved σ⟩ line x index value) :=
  .take fun _ _ h => checkArrayAssign_moved twins inside h line x index value

end Statements

mutual

theorem checkStmt_parallel (twins : Twins σ t u) {p : Place} (inside : p.Inside c) :
    ∀ s : Stmt Unit Unit, Parallel (Alongside σ t u T₀ U₀ c) (Stmt.moved σ) (checkStmt p s)
      (checkStmt (p.moved σ) s)
  | .block _ body => (checkStmts_parallel twins inside body).bind fun _ => .pure _ _
  | .assign line x _ value =>
    (checkAssign_parallel twins inside line x value).bind fun ⟨target, value⟩ =>
      .pure (Stmt.moved σ) (.assign line x target value)
  | .arrayAssign line x _ index value =>
    (checkArrayAssign_parallel twins inside line x index value).bind fun ⟨target, index, value⟩ =>
      .pure (Stmt.moved σ) (.arrayAssign line x target index value)
  | .ifElse line cond yes no =>
    (checkCond_parallel twins inside line cond).bind fun _ =>
      (checkStmt_parallel twins inside yes).bind fun _ =>
        (checkStmt_parallel twins inside no).bind fun _ => .pure _ _
  | .while line cond body =>
    (checkCond_parallel twins inside line cond).bind fun _ =>
      (checkStmt_parallel twins inside body).bind fun _ => .pure _ _
  | .print line value => by
    refine (typeIn_parallel twins inside value).bind fun value => ?_
    refine (Parallel.take (f := id) fun _ _ _ => ?_).bind fun _ => .pure _ _
    rw [expect_moved]
    exact .refl _

theorem checkStmts_parallel (twins : Twins σ t u) {p : Place} (inside : p.Inside c) :
    ∀ ss : List (Stmt Unit Unit), Parallel (Alongside σ t u T₀ U₀ c) (movedBody σ)
      (checkStmts p ss) (checkStmts (p.moved σ) ss)
  | [] => .pure _ _
  | s :: ss => by
    rw [checkStmts, checkStmts]
    refine Parallel.ifFull ?_ _ _
    exact (checkStmt_parallel twins inside s).bind fun _ =>
      (checkStmts_parallel twins inside ss).bind fun _ => .pure _ _

end

theorem checkResult_parallel (twins : Twins σ t u) (i : Nat) (result : Expr Unit) :
    Parallel (Alongside σ t u T₀ U₀ c) (Expr.moved σ)
      (checkResult ⟨c, some ⟨c, i⟩⟩ ⟨c, i⟩ result)
      (checkResult ⟨σ c, some ⟨σ c, i⟩⟩ ⟨σ c, i⟩ result) := by
  refine .take fun T U h => ?_
  have there := h.counterpart twins (.method i)
  refine (typeExpr_moved there twins result).bind fun result => ?_
  have method : U.method? ⟨σ c, i⟩ = (T.method? ⟨c, i⟩).map (Method.moved σ) := by
    rw [method?, methods, h.own, method?, methods]
    cases T.get? c with
    | none => rfl
    | some k => exact List.getElem?_map
  rw [Expr.note_moved, method]
  cases result.note with
  | none => exact .pure _ _
  | some info =>
    cases T.method? ⟨c, i⟩ with
    | none => exact .pure _ _
    | some m =>
      dsimp only [Option.map_some, ExprInfo.moved, Method.moved]
      rw [there.assignable twins]
      split
      · exact .pure _ _
      · exact .fault

theorem checkMethod_parallel (twins : Twins σ t u) (i : Nat) (m : MethodDecl .bare) :
    Parallel (Alongside σ t u T₀ U₀ c) (MethodDecl.moved σ)
      (checkMethod c (registerMethod m (some ⟨c, i⟩)))
      (checkMethod (σ c) (registerMethod m (some ⟨σ c, i⟩))) := by
  refine Parallel.ifFull ?_ _ _
  refine (checkStmts_parallel twins (.method i) m.body).bind fun body => ?_
  let finish (result : Expr Note) : MethodDecl .checked :=
    ⟨m.line, some ⟨c, i⟩, m.returnTy, m.name, m.params, m.vars, body, result⟩
  have last : Parallel (Alongside σ t u T₀ U₀ c) (MethodDecl.moved σ)
      (do let result ← checkResult ⟨c, some ⟨c, i⟩⟩ ⟨c, i⟩ m.result; return finish result)
      (do
        let result ← checkResult ⟨σ c, some ⟨σ c, i⟩⟩ ⟨σ c, i⟩ m.result
        return { finish result with note := some ⟨σ c, i⟩, body := movedBody σ body }) :=
    (checkResult_parallel twins i m.result).bind fun result => .pure _ (finish result)
  exact last.ifFull (finish (blank m.result)) _

theorem checkMethodBodies_parallel (twins : Twins σ t u) (ms : List (MethodDecl .bare)) :
    ∀ start, Parallel (Alongside σ t u T₀ U₀ c) (List.map (MethodDecl.moved σ))
      (checkMethodBodies c (placedMethods c start ms))
      (checkMethodBodies (σ c) (placedMethods (σ c) start ms)) := by
  induction ms with
  | nil => exact fun start => .pure _ _
  | cons m ms ih =>
    intro start
    rw [placedMethods_cons, placedMethods_cons]
    exact (checkMethod_parallel twins start m).bind fun _ =>
      (ih (start + 1)).bind fun _ => .pure _ _

theorem checkClass_parallel (twins : Twins σ t u) (d : ClassDecl .bare) :
    Parallel (Alongside σ t u T₀ U₀ c) (ClassDecl.moved σ) (checkClass (numberedClass c d))
      (checkClass (numberedClass (σ c) d)) :=
  (checkMethodBodies_parallel twins d.methods 0).bind fun _ => .pure _ _

end Class

end Check

end MiniJava
