import MiniJava.Proofs.Notes

/-!
# Programs without lines

Every line becomes 0. Programs that are equal up to lines become one program, so what is shown of a
program and the program without its lines is shown of both.
-/
namespace MiniJava

section Expr
variable {ν μ : Type}

mutual

def Expr.unlined : Expr ν → Expr ν
  | .node _ note form => .node 0 note form.unlined

def ExprForm.unlined : ExprForm ν → ExprForm ν
  | .binary op a b => .binary op a.unlined b.unlined
  | .lookup a i => .lookup a.unlined i.unlined
  | .length a => .length a.unlined
  | .send r m args => .send r.unlined m (unlinedArgs args)
  | .int n => .int n
  | .tt => .tt
  | .ff => .ff
  | .name x => .name x
  | .this => .this
  | .newIntArray n => .newIntArray n.unlined
  | .newBooleanArray n => .newBooleanArray n.unlined
  | .newObject c => .newObject c
  | .not e => .not e.unlined
  | .bracket e => .bracket e.unlined

def unlinedArgs : List (Expr ν) → List (Expr ν)
  | [] => []
  | e :: es => e.unlined :: unlinedArgs es

end

@[simp] theorem Expr.line_unlined (e : Expr ν) : e.unlined.line = 0 := by
  cases e
  rfl

@[simp] theorem Expr.note_unlined (e : Expr ν) : e.unlined.note = e.note := by
  cases e
  rfl

@[simp] theorem ExprForm.kind_unlined (e : ExprForm ν) : e.unlined.kind = e.kind := by
  cases e <;> rfl

@[simp] theorem Expr.kind_unlined (e : Expr ν) : e.unlined.kind = e.kind := by
  cases e with
  | node line note form => exact form.kind_unlined

@[simp] theorem length_unlinedArgs (es : List (Expr ν)) : (unlinedArgs es).length = es.length := by
  induction es with
  | nil => rfl
  | cons e es ih => exact congrArg (· + 1) ih

mutual

theorem Expr.unlined_map (f : ν → μ) : ∀ e : Expr ν, (e.map f).unlined = e.unlined.map f
  | .node line note form => by simp only [Expr.map, Expr.unlined, ExprForm.unlined_map f form]

theorem ExprForm.unlined_map (f : ν → μ) :
    ∀ e : ExprForm ν, (e.map f).unlined = e.unlined.map f
  | .binary op a b => by
    simp only [ExprForm.map, ExprForm.unlined, Expr.unlined_map f a, Expr.unlined_map f b]
  | .lookup a i => by
    simp only [ExprForm.map, ExprForm.unlined, Expr.unlined_map f a, Expr.unlined_map f i]
  | .length a => by simp only [ExprForm.map, ExprForm.unlined, Expr.unlined_map f a]
  | .send r m args => by
    simp only [ExprForm.map, ExprForm.unlined, Expr.unlined_map f r, unlinedArgs_mapArgs f args]
  | .int _ => rfl
  | .tt => rfl
  | .ff => rfl
  | .name _ => rfl
  | .this => rfl
  | .newIntArray n => by simp only [ExprForm.map, ExprForm.unlined, Expr.unlined_map f n]
  | .newBooleanArray n => by simp only [ExprForm.map, ExprForm.unlined, Expr.unlined_map f n]
  | .newObject _ => rfl
  | .not e => by simp only [ExprForm.map, ExprForm.unlined, Expr.unlined_map f e]
  | .bracket e => by simp only [ExprForm.map, ExprForm.unlined, Expr.unlined_map f e]

theorem unlinedArgs_mapArgs (f : ν → μ) :
    ∀ es : List (Expr ν), unlinedArgs (mapArgs f es) = mapArgs f (unlinedArgs es)
  | [] => rfl
  | e :: es => by simp only [mapArgs, unlinedArgs, Expr.unlined_map f e, unlinedArgs_mapArgs f es]

end

end Expr

section Stmt
variable {ν μ τ σ : Type}

mutual

def Stmt.unlined : Stmt ν τ → Stmt ν τ
  | .block _ body => .block 0 (unlinedBody body)
  | .assign _ x note e => .assign 0 x note e.unlined
  | .arrayAssign _ x note i e => .arrayAssign 0 x note i.unlined e.unlined
  | .ifElse _ c s t => .ifElse 0 c.unlined s.unlined t.unlined
  | .while _ c s => .while 0 c.unlined s.unlined
  | .print _ e => .print 0 e.unlined

def unlinedBody : List (Stmt ν τ) → List (Stmt ν τ)
  | [] => []
  | s :: ss => s.unlined :: unlinedBody ss

end

mutual

theorem Stmt.unlined_map (f : ν → μ) (g : τ → σ) :
    ∀ s : Stmt ν τ, (s.map f g).unlined = s.unlined.map f g
  | .block line body => by simp only [Stmt.map, Stmt.unlined, unlinedBody_mapBody f g body]
  | .assign .. => by simp only [Stmt.map, Stmt.unlined, Expr.unlined_map]
  | .arrayAssign .. => by simp only [Stmt.map, Stmt.unlined, Expr.unlined_map]
  | .ifElse line c s t => by
    simp only [Stmt.map, Stmt.unlined, Expr.unlined_map, Stmt.unlined_map f g s,
      Stmt.unlined_map f g t]
  | .while line c s => by
    simp only [Stmt.map, Stmt.unlined, Expr.unlined_map, Stmt.unlined_map f g s]
  | .print .. => by simp only [Stmt.map, Stmt.unlined, Expr.unlined_map]

theorem unlinedBody_mapBody (f : ν → μ) (g : τ → σ) :
    ∀ ss : List (Stmt ν τ), unlinedBody (mapBody f g ss) = mapBody f g (unlinedBody ss)
  | [] => rfl
  | s :: ss => by
    simp only [mapBody, unlinedBody, Stmt.unlined_map f g s, unlinedBody_mapBody f g ss]

end

end Stmt

def VarDecl.unlined (v : VarDecl) : VarDecl := { v with line := 0 }

section Program
variable {N : Notes}

def MethodDecl.unlined (m : MethodDecl N) : MethodDecl N :=
  ⟨0, m.note, m.returnTy, m.name, m.params.map VarDecl.unlined, m.vars.map VarDecl.unlined,
    unlinedBody m.body, m.result.unlined⟩

def ClassDecl.unlined (c : ClassDecl N) : ClassDecl N :=
  ⟨0, c.note, c.name, c.superclass, c.fields.map VarDecl.unlined,
    c.methods.map MethodDecl.unlined⟩

def MainClass.unlined (c : MainClass N) : MainClass N :=
  ⟨0, c.name, c.param, c.vars.map VarDecl.unlined, unlinedBody c.body⟩

def Program.unlined (p : Program N) : Program N := ⟨p.main.unlined, p.classes.map ClassDecl.unlined⟩

end Program

mutual

theorem Expr.unlined_eq : ∀ {e e' : Expr Unit}, e.alike e' = true → e.unlined = e'.unlined
  | .node .., .node .., h => congrArg (Expr.node 0 ()) (ExprForm.unlined_eq h)

theorem ExprForm.unlined_eq : ∀ {e e' : ExprForm Unit}, e.alike e' = true → e.unlined = e'.unlined
  | .binary op a b, .binary op' a' b', h => by
    simp only [ExprForm.alike, Bool.and_eq_true, beq_iff_eq] at h
    obtain ⟨⟨rfl, ha⟩, hb⟩ := h
    simp only [ExprForm.unlined, Expr.unlined_eq ha, Expr.unlined_eq hb]
  | .lookup a i, .lookup a' i', h => by
    simp only [ExprForm.alike, Bool.and_eq_true] at h
    simp only [ExprForm.unlined, Expr.unlined_eq h.1, Expr.unlined_eq h.2]
  | .length a, .length a', h => congrArg ExprForm.length (Expr.unlined_eq h)
  | .send r m args, .send r' m' args', h => by
    simp only [ExprForm.alike, Bool.and_eq_true, beq_iff_eq] at h
    obtain ⟨⟨hr, rfl⟩, ha⟩ := h
    simp only [ExprForm.unlined, Expr.unlined_eq hr, unlinedArgs_eq ha]
  | .int n, .int n', h => by
    simp only [ExprForm.alike, beq_iff_eq] at h
    rw [h]
  | .tt, .tt, _ => rfl
  | .ff, .ff, _ => rfl
  | .name x, .name x', h => by
    simp only [ExprForm.alike, beq_iff_eq] at h
    rw [h]
  | .this, .this, _ => rfl
  | .newIntArray n, .newIntArray n', h => congrArg ExprForm.newIntArray (Expr.unlined_eq h)
  | .newBooleanArray n, .newBooleanArray n', h =>
    congrArg ExprForm.newBooleanArray (Expr.unlined_eq h)
  | .newObject c, .newObject c', h => by
    simp only [ExprForm.alike, beq_iff_eq] at h
    rw [h]
  | .not e, .not e', h => congrArg ExprForm.not (Expr.unlined_eq h)
  | .bracket e, .bracket e', h => congrArg ExprForm.bracket (Expr.unlined_eq h)

theorem unlinedArgs_eq :
    ∀ {es es' : List (Expr Unit)}, argsAlike es es' = true → unlinedArgs es = unlinedArgs es'
  | [], [], _ => rfl
  | e :: es, e' :: es', h => by
    simp only [argsAlike, Bool.and_eq_true] at h
    simp only [unlinedArgs, Expr.unlined_eq h.1, unlinedArgs_eq h.2]

end

mutual

theorem Stmt.unlined_eq : ∀ {s s' : Stmt Unit Unit}, s.alike s' = true → s.unlined = s'.unlined
  | .block .., .block .., h => congrArg (Stmt.block 0) (unlinedBody_eq h)
  | .assign .., .assign .., h => by
    simp only [Stmt.alike, Bool.and_eq_true, beq_iff_eq] at h
    simp only [Stmt.unlined, h.1, Expr.unlined_eq h.2]
  | .arrayAssign .., .arrayAssign .., h => by
    simp only [Stmt.alike, Bool.and_eq_true, beq_iff_eq] at h
    simp only [Stmt.unlined, h.1.1, Expr.unlined_eq h.1.2, Expr.unlined_eq h.2]
  | .ifElse .., .ifElse .., h => by
    simp only [Stmt.alike, Bool.and_eq_true] at h
    simp only [Stmt.unlined, Expr.unlined_eq h.1.1, Stmt.unlined_eq h.1.2, Stmt.unlined_eq h.2]
  | .while .., .while .., h => by
    simp only [Stmt.alike, Bool.and_eq_true] at h
    simp only [Stmt.unlined, Expr.unlined_eq h.1, Stmt.unlined_eq h.2]
  | .print .., .print .., h => congrArg (Stmt.print 0) (Expr.unlined_eq h)

theorem unlinedBody_eq :
    ∀ {ss ss' : List (Stmt Unit Unit)}, bodyAlike ss ss' = true → unlinedBody ss = unlinedBody ss'
  | [], [], _ => rfl
  | s :: ss, s' :: ss', h => by
    simp only [bodyAlike, Bool.and_eq_true] at h
    simp only [unlinedBody, Stmt.unlined_eq h.1, unlinedBody_eq h.2]

end

theorem map_eq_of_allAlike {α β γ : Type} {alike : α → β → Bool} {f : α → γ} {g : β → γ} :
    ∀ {as : List α} {bs : List β}, allAlike alike as bs = true →
      (∀ a b, alike a b = true → f a = g b) → as.map f = bs.map g
  | [], [], _, _ => rfl
  | a :: as, b :: bs, h, same => by
    simp only [allAlike, Bool.and_eq_true] at h
    simp only [List.map_cons, same a b h.1, map_eq_of_allAlike h.2 same]

theorem VarDecl.unlined_eq {v w : VarDecl} (h : v.alike w = true) : v.unlined = w.unlined := by
  simp only [VarDecl.alike, Bool.and_eq_true, beq_iff_eq] at h
  simp only [VarDecl.unlined, h.1, h.2]

theorem MethodDecl.unlined_eq {m n : MethodDecl .bare} (h : m.alike n = true) :
    m.unlined = n.unlined := by
  simp only [MethodDecl.alike, Bool.and_eq_true, beq_iff_eq] at h
  obtain ⟨⟨⟨⟨⟨returnTy, name⟩, params⟩, vars⟩, body⟩, result⟩ := h
  simp only [MethodDecl.unlined, returnTy, name, map_eq_of_allAlike params fun _ _ => VarDecl.unlined_eq,
    map_eq_of_allAlike vars fun _ _ => VarDecl.unlined_eq, unlinedBody_eq body, Expr.unlined_eq result]

theorem ClassDecl.unlined_eq {c d : ClassDecl .bare} (h : c.alike d = true) :
    c.unlined = d.unlined := by
  simp only [ClassDecl.alike, Bool.and_eq_true, beq_iff_eq] at h
  obtain ⟨⟨⟨name, superclass⟩, fields⟩, methods⟩ := h
  simp only [ClassDecl.unlined, name, superclass, map_eq_of_allAlike fields fun _ _ => VarDecl.unlined_eq,
    map_eq_of_allAlike methods fun _ _ => MethodDecl.unlined_eq]

theorem MainClass.unlined_eq {c d : MainClass .bare} (h : c.alike d = true) :
    c.unlined = d.unlined := by
  simp only [MainClass.alike, Bool.and_eq_true, beq_iff_eq] at h
  obtain ⟨⟨⟨name, param⟩, vars⟩, body⟩ := h
  simp only [MainClass.unlined, name, param, map_eq_of_allAlike vars fun _ _ => VarDecl.unlined_eq,
    unlinedBody_eq body]

theorem Program.unlined_eq {p q : Program .bare} (h : p.alike q = true) :
    p.unlined = q.unlined := by
  simp only [Program.alike, Bool.and_eq_true] at h
  simp only [Program.unlined, MainClass.unlined_eq h.1,
    map_eq_of_allAlike h.2 fun _ _ => ClassDecl.unlined_eq]

end MiniJava
