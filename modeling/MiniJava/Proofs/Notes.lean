import MiniJava.Class.Reference

/-!
# Programs without their notes

A program that has been analysed becomes the program as it was read again when its notes are
dropped. Changing notes twice is the same as changing them once.
-/
namespace MiniJava

section Map
variable {ν μ ξ : Type}

@[simp] theorem mapArgs_eq_map (f : ν → μ) (es : List (Expr ν)) :
    mapArgs f es = es.map (Expr.map f) := by
  induction es with
  | nil => rw [mapArgs]; rfl
  | cons e es ih => rw [mapArgs, ih]; rfl

mutual

theorem Expr.map_map (f : ν → μ) (g : μ → ξ) : ∀ e : Expr ν, (e.map f).map g = e.map (g ∘ f)
  | .node line note form => by
    simp only [Expr.map, ExprForm.map_map f g form, Function.comp_apply]

theorem ExprForm.map_map (f : ν → μ) (g : μ → ξ) :
    ∀ e : ExprForm ν, (e.map f).map g = e.map (g ∘ f)
  | .binary op a b => by simp only [ExprForm.map, Expr.map_map f g a, Expr.map_map f g b]
  | .lookup a i => by simp only [ExprForm.map, Expr.map_map f g a, Expr.map_map f g i]
  | .length a => by simp only [ExprForm.map, Expr.map_map f g a]
  | .send r m args => by
    simp only [ExprForm.map, Expr.map_map f g r, mapArgs_mapArgs f g args]
  | .int _ => rfl
  | .tt => rfl
  | .ff => rfl
  | .name _ => rfl
  | .this => rfl
  | .newIntArray n => by simp only [ExprForm.map, Expr.map_map f g n]
  | .newBooleanArray n => by simp only [ExprForm.map, Expr.map_map f g n]
  | .newObject _ => rfl
  | .not e => by simp only [ExprForm.map, Expr.map_map f g e]
  | .bracket e => by simp only [ExprForm.map, Expr.map_map f g e]

theorem mapArgs_mapArgs (f : ν → μ) (g : μ → ξ) :
    ∀ es : List (Expr ν), mapArgs g (mapArgs f es) = mapArgs (g ∘ f) es
  | [] => rfl
  | e :: es => by simp only [mapArgs, Expr.map_map f g e, mapArgs_mapArgs f g es]

end

mutual

theorem Expr.map_id : ∀ e : Expr ν, e.map id = e
  | .node line note form => by simp only [Expr.map, ExprForm.map_id form, id]

theorem ExprForm.map_id : ∀ e : ExprForm ν, e.map id = e
  | .binary op a b => by simp only [ExprForm.map, Expr.map_id a, Expr.map_id b]
  | .lookup a i => by simp only [ExprForm.map, Expr.map_id a, Expr.map_id i]
  | .length a => by simp only [ExprForm.map, Expr.map_id a]
  | .send r m args => by simp only [ExprForm.map, Expr.map_id r, mapArgs_id args]
  | .int _ => rfl
  | .tt => rfl
  | .ff => rfl
  | .name _ => rfl
  | .this => rfl
  | .newIntArray n => by simp only [ExprForm.map, Expr.map_id n]
  | .newBooleanArray n => by simp only [ExprForm.map, Expr.map_id n]
  | .newObject _ => rfl
  | .not e => by simp only [ExprForm.map, Expr.map_id e]
  | .bracket e => by simp only [ExprForm.map, Expr.map_id e]

theorem mapArgs_id : ∀ es : List (Expr ν), mapArgs id es = es
  | [] => rfl
  | e :: es => by simp only [mapArgs, Expr.map_id e, mapArgs_id es]

end

end Map

section MapStmt
variable {ν μ ξ τ σ ρ : Type}

@[simp] theorem mapBody_eq_map (f : ν → μ) (g : τ → σ) (ss : List (Stmt ν τ)) :
    mapBody f g ss = ss.map (Stmt.map f g) := by
  induction ss with
  | nil => rw [mapBody]; rfl
  | cons s ss ih => rw [mapBody, ih]; rfl

mutual

theorem Stmt.map_map (f : ν → μ) (f' : μ → ξ) (g : τ → σ) (g' : σ → ρ) :
    ∀ s : Stmt ν τ, (s.map f g).map f' g' = s.map (f' ∘ f) (g' ∘ g)
  | .block line body => by
    simp only [Stmt.map, mapBody_mapBody f f' g g' body]
  | .assign .. => by simp only [Stmt.map, Expr.map_map, Function.comp_apply]
  | .arrayAssign .. => by simp only [Stmt.map, Expr.map_map, Function.comp_apply]
  | .ifElse line c s t => by
    simp only [Stmt.map, Expr.map_map, Stmt.map_map f f' g g' s, Stmt.map_map f f' g g' t]
  | .while line c s => by simp only [Stmt.map, Expr.map_map, Stmt.map_map f f' g g' s]
  | .print .. => by simp only [Stmt.map, Expr.map_map]

theorem mapBody_mapBody (f : ν → μ) (f' : μ → ξ) (g : τ → σ) (g' : σ → ρ) :
    ∀ ss : List (Stmt ν τ), mapBody f' g' (mapBody f g ss) = mapBody (f' ∘ f) (g' ∘ g) ss
  | [] => rfl
  | s :: ss => by
    simp only [mapBody, Stmt.map_map f f' g g' s, mapBody_mapBody f f' g g' ss]

end

mutual

theorem Stmt.map_id : ∀ s : Stmt ν τ, s.map id id = s
  | .block line body => by simp only [Stmt.map, mapBody_id body]
  | .assign .. => by simp only [Stmt.map, Expr.map_id, id]
  | .arrayAssign .. => by simp only [Stmt.map, Expr.map_id, id]
  | .ifElse line c s t => by simp only [Stmt.map, Expr.map_id, Stmt.map_id s, Stmt.map_id t]
  | .while line c s => by simp only [Stmt.map, Expr.map_id, Stmt.map_id s]
  | .print .. => by simp only [Stmt.map, Expr.map_id]

theorem mapBody_id : ∀ ss : List (Stmt ν τ), mapBody id id ss = ss
  | [] => rfl
  | s :: ss => by simp only [mapBody, Stmt.map_id s, mapBody_id ss]

end

end MapStmt

def Expr.bare {ν : Type} (e : Expr ν) : Expr Unit := e.map fun _ => ()

def ExprForm.bare {ν : Type} (e : ExprForm ν) : ExprForm Unit := e.map fun _ => ()

def Stmt.bare {ν τ : Type} (s : Stmt ν τ) : Stmt Unit Unit := s.map (fun _ => ()) (fun _ => ())

section Bare
variable {N : Notes}

def MethodDecl.bare (m : MethodDecl N) : MethodDecl .bare :=
  ⟨m.line, (), m.returnTy, m.name, m.params, m.vars, m.body.map Stmt.bare, m.result.bare⟩

def ClassDecl.bare (c : ClassDecl N) : ClassDecl .bare :=
  ⟨c.line, (), c.name, c.superclass, c.fields, c.methods.map MethodDecl.bare⟩

def MainClass.bare (c : MainClass N) : MainClass .bare :=
  ⟨c.line, c.name, c.param, c.vars, c.body.map Stmt.bare⟩

def Program.bare (p : Program N) : Program .bare := ⟨p.main.bare, p.classes.map ClassDecl.bare⟩

end Bare

@[simp] theorem Expr.bare_map {ν μ : Type} (f : ν → μ) (e : Expr ν) : (e.map f).bare = e.bare :=
  Expr.map_map f (fun _ => ()) e

@[simp] theorem Expr.bare_unit (e : Expr Unit) : e.bare = e := Expr.map_id e

@[simp] theorem Stmt.bare_map {ν μ τ σ : Type} (f : ν → μ) (g : τ → σ) (s : Stmt ν τ) :
    (s.map f g).bare = s.bare := Stmt.map_map f (fun _ => ()) g (fun _ => ()) s

@[simp] theorem Stmt.bare_unit (s : Stmt Unit Unit) : s.bare = s := Stmt.map_id s

section Forms
variable {ν : Type}

@[simp] theorem Expr.bare_node (line : Nat) (note : ν) (form : ExprForm ν) :
    (Expr.node line note form).bare = .node line () form.bare := rfl

@[simp] theorem ExprForm.bare_binary (op : BinOp) (a b : Expr ν) :
    (ExprForm.binary op a b).bare = .binary op a.bare b.bare := rfl

@[simp] theorem ExprForm.bare_lookup (a i : Expr ν) :
    (ExprForm.lookup a i).bare = .lookup a.bare i.bare := rfl

@[simp] theorem ExprForm.bare_length (a : Expr ν) : (ExprForm.length a).bare = .length a.bare := rfl

@[simp] theorem ExprForm.bare_send (r : Expr ν) (m : Name) (args : List (Expr ν)) :
    (ExprForm.send r m args).bare = .send r.bare m (args.map Expr.bare) :=
  congrArg (ExprForm.send r.bare m) (mapArgs_eq_map _ args)

@[simp] theorem ExprForm.bare_int (n : Int32) : (ExprForm.int n : ExprForm ν).bare = .int n := rfl

@[simp] theorem ExprForm.bare_tt : (ExprForm.tt : ExprForm ν).bare = .tt := rfl

@[simp] theorem ExprForm.bare_ff : (ExprForm.ff : ExprForm ν).bare = .ff := rfl

@[simp] theorem ExprForm.bare_name (x : Name) : (ExprForm.name x : ExprForm ν).bare = .name x := rfl

@[simp] theorem ExprForm.bare_this : (ExprForm.this : ExprForm ν).bare = .this := rfl

@[simp] theorem ExprForm.bare_newIntArray (n : Expr ν) :
    (ExprForm.newIntArray n).bare = .newIntArray n.bare := rfl

@[simp] theorem ExprForm.bare_newBooleanArray (n : Expr ν) :
    (ExprForm.newBooleanArray n).bare = .newBooleanArray n.bare := rfl

@[simp] theorem ExprForm.bare_newObject (c : Name) :
    (ExprForm.newObject c : ExprForm ν).bare = .newObject c := rfl

@[simp] theorem ExprForm.bare_not (e : Expr ν) : (ExprForm.not e).bare = .not e.bare := rfl

@[simp] theorem ExprForm.bare_bracket (e : Expr ν) :
    (ExprForm.bracket e).bare = .bracket e.bare := rfl

end Forms

theorem map_bare_unit (ss : List (Stmt Unit Unit)) : ss.map Stmt.bare = ss := by
  rw [funext Stmt.bare_unit]
  exact List.map_id' ss

end MiniJava
