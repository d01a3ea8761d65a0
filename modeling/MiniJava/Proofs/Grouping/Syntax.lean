import MiniJava.Proofs.Class.Raised
import MiniJava.Proofs.Lines.Syntax
import MiniJava.Proofs.Steps.Skeleton

/-!
# Programs without brackets and blocks

A bracket gives way to what stands in it, and a block in a row of statements to the statements inside.
A branch is a row of one statement, so it becomes one block. Programs that differ in how expressions
are bracketed and statements are grouped become one program, up to lines.
-/
namespace MiniJava

section Expr
variable {ν μ : Type}

def Expr.withNote (note : ν) : Expr ν → Expr ν
  | .node line _ form => .node line note form

/-- What stands in a bracket, with the note of the bracket. -/
def Expr.opened : Expr ν → Expr ν
  | .node _ note (.bracket e) => e.withNote note
  | e => e

mutual

def Expr.unbracketed : Expr ν → Expr ν
  | .node line note form => (Expr.node line note form.unbracketed).opened

def ExprForm.unbracketed : ExprForm ν → ExprForm ν
  | .binary op a b => .binary op a.unbracketed b.unbracketed
  | .lookup a i => .lookup a.unbracketed i.unbracketed
  | .length a => .length a.unbracketed
  | .send r m args => .send r.unbracketed m (unbracketedArgs args)
  | .int n => .int n
  | .tt => .tt
  | .ff => .ff
  | .name x => .name x
  | .this => .this
  | .newIntArray n => .newIntArray n.unbracketed
  | .newBooleanArray n => .newBooleanArray n.unbracketed
  | .newObject c => .newObject c
  | .not e => .not e.unbracketed
  | .bracket e => .bracket e.unbracketed

def unbracketedArgs : List (Expr ν) → List (Expr ν)
  | [] => []
  | e :: es => e.unbracketed :: unbracketedArgs es

end

@[simp] theorem Expr.note_withNote (note : ν) (e : Expr ν) : (e.withNote note).note = note := by
  cases e
  rfl

@[simp] theorem Expr.withNote_note (e : Expr ν) : e.withNote e.note = e := by
  cases e
  rfl

@[simp] theorem Expr.note_opened (e : Expr ν) : e.opened.note = e.note := by
  obtain ⟨line, note, form⟩ := e
  cases form with
  | bracket e => exact e.note_withNote note
  | _ => rfl

theorem Expr.opened_of_kind {e : Expr ν} (h : e.kind ≠ "Bracket") : e.opened = e := by
  obtain ⟨line, note, form⟩ := e
  cases form with
  | bracket e => exact absurd rfl h
  | _ => rfl

theorem Expr.opened_map (f : ν → μ) (e : Expr ν) : (e.map f).opened = e.opened.map f := by
  obtain ⟨line, note, form⟩ := e
  cases form with
  | bracket e =>
    obtain ⟨line, note, form⟩ := e
    rfl
  | _ => rfl

@[simp] theorem Expr.note_unbracketed (e : Expr ν) : e.unbracketed.note = e.note := by
  obtain ⟨line, note, form⟩ := e
  exact Expr.note_opened _

@[simp] theorem length_unbracketedArgs (es : List (Expr ν)) :
    (unbracketedArgs es).length = es.length := by
  induction es with
  | nil => rfl
  | cons e es ih => exact congrArg (· + 1) ih

mutual

theorem Expr.unbracketed_map (f : ν → μ) :
    ∀ e : Expr ν, (e.map f).unbracketed = e.unbracketed.map f
  | .node line note form => by
    rw [Expr.unbracketed, ← Expr.opened_map, Expr.map, Expr.map, Expr.unbracketed,
      ExprForm.unbracketed_map f form]

theorem ExprForm.unbracketed_map (f : ν → μ) :
    ∀ e : ExprForm ν, (e.map f).unbracketed = e.unbracketed.map f
  | .binary op a b => by
    simp only [ExprForm.map, ExprForm.unbracketed, Expr.unbracketed_map f a,
      Expr.unbracketed_map f b]
  | .lookup a i => by
    simp only [ExprForm.map, ExprForm.unbracketed, Expr.unbracketed_map f a,
      Expr.unbracketed_map f i]
  | .length a => by simp only [ExprForm.map, ExprForm.unbracketed, Expr.unbracketed_map f a]
  | .send r m args => by
    simp only [ExprForm.map, ExprForm.unbracketed, Expr.unbracketed_map f r,
      unbracketedArgs_mapArgs f args]
  | .int _ => rfl
  | .tt => rfl
  | .ff => rfl
  | .name _ => rfl
  | .this => rfl
  | .newIntArray n => by simp only [ExprForm.map, ExprForm.unbracketed, Expr.unbracketed_map f n]
  | .newBooleanArray n => by
    simp only [ExprForm.map, ExprForm.unbracketed, Expr.unbracketed_map f n]
  | .newObject _ => rfl
  | .not e => by simp only [ExprForm.map, ExprForm.unbracketed, Expr.unbracketed_map f e]
  | .bracket e => by simp only [ExprForm.map, ExprForm.unbracketed, Expr.unbracketed_map f e]

theorem unbracketedArgs_mapArgs (f : ν → μ) :
    ∀ es : List (Expr ν), unbracketedArgs (mapArgs f es) = mapArgs f (unbracketedArgs es)
  | [] => rfl
  | e :: es => by
    simp only [mapArgs, unbracketedArgs, Expr.unbracketed_map f e, unbracketedArgs_mapArgs f es]

end

end Expr

section Stmt
variable {ν μ τ σ : Type}

mutual

/-- A statement as a row of statements without brackets, in which blocks stand for branches only. -/
def Stmt.spread : Stmt ν τ → List (Stmt ν τ)
  | .block _ body => spreadBody body
  | .assign line x note e => [.assign line x note e.unbracketed]
  | .arrayAssign line x note i e => [.arrayAssign line x note i.unbracketed e.unbracketed]
  | .ifElse line c s t => [.ifElse line c.unbracketed (.block 0 s.spread) (.block 0 t.spread)]
  | .while line c s => [.while line c.unbracketed (.block 0 s.spread)]
  | .print line e => [.print line e.unbracketed]

def spreadBody : List (Stmt ν τ) → List (Stmt ν τ)
  | [] => []
  | s :: ss => s.spread ++ spreadBody ss

end

theorem spreadBody_append (ss ts : List (Stmt ν τ)) :
    spreadBody (ss ++ ts) = spreadBody ss ++ spreadBody ts := by
  induction ss with
  | nil => rfl
  | cons s ss ih => rw [List.cons_append, spreadBody, ih, spreadBody, List.append_assoc]

mutual

theorem Stmt.spread_map (f : ν → μ) (g : τ → σ) :
    ∀ s : Stmt ν τ, (s.map f g).spread = s.spread.map (Stmt.map f g)
  | .block _ body => by simp only [Stmt.map, Stmt.spread, spreadBody_mapBody f g body]
  | .assign .. => by
    simp only [Stmt.map, Stmt.spread, Expr.unbracketed_map, List.map_cons, List.map_nil]
  | .arrayAssign .. => by
    simp only [Stmt.map, Stmt.spread, Expr.unbracketed_map, List.map_cons, List.map_nil]
  | .ifElse _ _ s t => by
    simp only [Stmt.map, Stmt.spread, Expr.unbracketed_map, List.map_cons, List.map_nil,
      Stmt.spread_map f g s, Stmt.spread_map f g t, mapBody_eq_map]
  | .while _ _ s => by
    simp only [Stmt.map, Stmt.spread, Expr.unbracketed_map, List.map_cons, List.map_nil,
      Stmt.spread_map f g s, mapBody_eq_map]
  | .print .. => by
    simp only [Stmt.map, Stmt.spread, Expr.unbracketed_map, List.map_cons, List.map_nil]

theorem spreadBody_mapBody (f : ν → μ) (g : τ → σ) :
    ∀ ss : List (Stmt ν τ), spreadBody (mapBody f g ss) = (spreadBody ss).map (Stmt.map f g)
  | [] => rfl
  | s :: ss => by
    simp only [mapBody, spreadBody, Stmt.spread_map f g s, spreadBody_mapBody f g ss,
      List.map_append]

end

end Stmt

/-- The program without brackets and without blocks but for branches. -/
def Program.spread {N : Notes} (p : Program N) : Program N := p.onBodies spreadBody Expr.unbracketed

section Aligned
variable {N : Notes}

/-- The expression that a method returns is not moved by taking its brackets away. -/
def MethodDecl.Aligned (m : MethodDecl N) : Prop := m.result.unbracketed.line = m.result.line

def Program.Aligned (p : Program N) : Prop := ∀ c ∈ p.classes, ∀ m ∈ c.methods, m.Aligned

theorem Expr.line_map {ν μ : Type} (f : ν → μ) (e : Expr ν) : (e.map f).line = e.line := by
  cases e
  rfl

theorem MethodDecl.aligned_of_bare {m : MethodDecl N} (h : m.bare.Aligned) : m.Aligned := by
  change m.result.bare.unbracketed.line = m.result.bare.line at h
  rw [Expr.bare, Expr.unbracketed_map, Expr.line_map, Expr.line_map] at h
  exact h

theorem Program.aligned_of_bare {p : Program N} (h : p.bare.Aligned) : p.Aligned := by
  intro c hc m hm
  exact MethodDecl.aligned_of_bare
    (h c.bare (List.mem_map_of_mem hc) m.bare (List.mem_map_of_mem hm))

/-- Without lines nothing is moved. -/
theorem Expr.line_unbracketed_unlined {ν : Type} :
    ∀ e : Expr ν, e.unlined.unbracketed.line = 0
  | .node _ _ (.bracket e) => by
    have inner := Expr.line_unbracketed_unlined e
    rw [Expr.unlined, ExprForm.unlined, Expr.unbracketed, ExprForm.unbracketed, Expr.opened]
    cases h : e.unlined.unbracketed with
    | node line note form => rwa [h] at inner
  | .node _ _ (.binary ..) | .node _ _ (.lookup ..) | .node _ _ (.length _)
  | .node _ _ (.send ..) | .node _ _ (.int _) | .node _ _ .tt | .node _ _ .ff
  | .node _ _ (.name _) | .node _ _ .this | .node _ _ (.newIntArray _)
  | .node _ _ (.newBooleanArray _) | .node _ _ (.newObject _) | .node _ _ (.not _) => rfl

theorem Program.aligned_unlined (p : Program N) : p.unlined.Aligned := by
  intro c hc m hm
  obtain ⟨d, _, rfl⟩ := List.mem_map.mp hc
  obtain ⟨k, _, rfl⟩ := List.mem_map.mp hm
  exact (Expr.line_unbracketed_unlined k.result).trans k.result.line_unlined.symm

end Aligned

mutual

/-- The second expression is the first one with brackets put somewhere and brackets removed
somewhere. -/
inductive Expr.Rebracketed : Expr Unit → Expr Unit → Prop
  | node {line : Nat} {f g : ExprForm Unit} : f.Rebracketed g →
      Expr.Rebracketed (.node line () f) (.node line () g)
  | put {line : Nat} {e e' : Expr Unit} : e.Rebracketed e' →
      Expr.Rebracketed e (.node line () (.bracket e'))
  | remove {line : Nat} {e e' : Expr Unit} : e.Rebracketed e' →
      Expr.Rebracketed (.node line () (.bracket e)) e'

inductive ExprForm.Rebracketed : ExprForm Unit → ExprForm Unit → Prop
  | same {f : ExprForm Unit} : ExprForm.Rebracketed f f
  | binary {op : BinOp} {a a' b b' : Expr Unit} : a.Rebracketed a' → b.Rebracketed b' →
      ExprForm.Rebracketed (.binary op a b) (.binary op a' b')
  | lookup {a a' i i' : Expr Unit} : a.Rebracketed a' → i.Rebracketed i' →
      ExprForm.Rebracketed (.lookup a i) (.lookup a' i')
  | length {a a' : Expr Unit} : a.Rebracketed a' →
      ExprForm.Rebracketed (.length a) (.length a')
  | send {r r' : Expr Unit} {m : Name} {args args' : List (Expr Unit)} : r.Rebracketed r' →
      ArgsRebracketed args args' → ExprForm.Rebracketed (.send r m args) (.send r' m args')
  | newIntArray {n n' : Expr Unit} : n.Rebracketed n' →
      ExprForm.Rebracketed (.newIntArray n) (.newIntArray n')
  | newBooleanArray {n n' : Expr Unit} : n.Rebracketed n' →
      ExprForm.Rebracketed (.newBooleanArray n) (.newBooleanArray n')
  | not {e e' : Expr Unit} : e.Rebracketed e' → ExprForm.Rebracketed (.not e) (.not e')
  | bracket {e e' : Expr Unit} : e.Rebracketed e' →
      ExprForm.Rebracketed (.bracket e) (.bracket e')

inductive ArgsRebracketed : List (Expr Unit) → List (Expr Unit) → Prop
  | nil : ArgsRebracketed [] []
  | cons {e e' : Expr Unit} {es es' : List (Expr Unit)} : e.Rebracketed e' →
      ArgsRebracketed es es' → ArgsRebracketed (e :: es) (e' :: es')

end

mutual

/-- The second statement is the first one with other brackets and with other groups of statements
inside. -/
inductive Stmt.Regrouped : Stmt Unit Unit → Stmt Unit Unit → Prop
  | assign {line : Nat} {x : Name} {e e' : Expr Unit} : e.Rebracketed e' →
      Stmt.Regrouped (.assign line x () e) (.assign line x () e')
  | arrayAssign {line : Nat} {x : Name} {i i' e e' : Expr Unit} : i.Rebracketed i' →
      e.Rebracketed e' → Stmt.Regrouped (.arrayAssign line x () i e) (.arrayAssign line x () i' e')
  | ifElse {line : Nat} {c c' : Expr Unit} {s s' t t' : Stmt Unit Unit} : c.Rebracketed c' →
      BodyRegrouped [s] [s'] → BodyRegrouped [t] [t'] →
      Stmt.Regrouped (.ifElse line c s t) (.ifElse line c' s' t')
  | while {line : Nat} {c c' : Expr Unit} {s s' : Stmt Unit Unit} : c.Rebracketed c' →
      BodyRegrouped [s] [s'] → Stmt.Regrouped (.while line c s) (.while line c' s')
  | print {line : Nat} {e e' : Expr Unit} : e.Rebracketed e' →
      Stmt.Regrouped (.print line e) (.print line e')

/-- In the second row the first statements are wrapped into blocks somewhere, and the statements of
blocks put into the row somewhere. -/
inductive BodyRegrouped : List (Stmt Unit Unit) → List (Stmt Unit Unit) → Prop
  | nil : BodyRegrouped [] []
  | cons {s s' : Stmt Unit Unit} {ss ss' : List (Stmt Unit Unit)} : s.Regrouped s' →
      BodyRegrouped ss ss' → BodyRegrouped (s :: ss) (s' :: ss')
  | wrap {line : Nat} {ss body rest : List (Stmt Unit Unit)} : BodyRegrouped ss (body ++ rest) →
      BodyRegrouped ss (.block line body :: rest)
  | splice {line : Nat} {body rest ss : List (Stmt Unit Unit)} : BodyRegrouped (body ++ rest) ss →
      BodyRegrouped (.block line body :: rest) ss

end

/-- Methods that differ in brackets and blocks. -/
structure MethodDecl.Regrouped (m k : MethodDecl .bare) : Prop where
  same : k = { m with body := k.body, result := k.result }
  body : BodyRegrouped m.body k.body
  result : m.result.Rebracketed k.result

structure ClassDecl.Regrouped (d e : ClassDecl .bare) : Prop where
  same : e = { d with methods := e.methods }
  methods : List.Forall₂ MethodDecl.Regrouped d.methods e.methods

/-- The second program is the first one with brackets put in or removed and statements wrapped into
blocks or taken out of them, anywhere. -/
structure Program.Regrouped (p q : Program .bare) : Prop where
  same : q.main = { p.main with body := q.main.body }
  main : BodyRegrouped p.main.body q.main.body
  classes : List.Forall₂ ClassDecl.Regrouped p.classes q.classes

mutual

theorem Expr.Rebracketed.unbracketed_eq :
    ∀ {e e' : Expr Unit}, e.Rebracketed e' → e.unlined.unbracketed = e'.unlined.unbracketed
  | .node _ _ _, .node _ _ _, .node h => by
    simp only [Expr.unlined, Expr.unbracketed, h.unbracketed_eq]
  | _, .node _ _ (.bracket e'), .put h => h.unbracketed_eq.trans (Expr.withNote_note _).symm
  | .node _ _ (.bracket e), _, .remove h => (Expr.withNote_note _).trans h.unbracketed_eq

theorem ExprForm.Rebracketed.unbracketed_eq : ∀ {f g : ExprForm Unit}, f.Rebracketed g →
    f.unlined.unbracketed = g.unlined.unbracketed
  | _, _, .same => rfl
  | _, _, .binary ha hb => by
    simp only [ExprForm.unlined, ExprForm.unbracketed, ha.unbracketed_eq, hb.unbracketed_eq]
  | _, _, .lookup ha hi => by
    simp only [ExprForm.unlined, ExprForm.unbracketed, ha.unbracketed_eq, hi.unbracketed_eq]
  | _, _, .length ha => by
    simp only [ExprForm.unlined, ExprForm.unbracketed, ha.unbracketed_eq]
  | _, _, .send hr hargs => by
    simp only [ExprForm.unlined, ExprForm.unbracketed, hr.unbracketed_eq, hargs.unbracketed_eq]
  | _, _, .newIntArray hn => by
    simp only [ExprForm.unlined, ExprForm.unbracketed, hn.unbracketed_eq]
  | _, _, .newBooleanArray hn => by
    simp only [ExprForm.unlined, ExprForm.unbracketed, hn.unbracketed_eq]
  | _, _, .not he => by simp only [ExprForm.unlined, ExprForm.unbracketed, he.unbracketed_eq]
  | _, _, .bracket he => by simp only [ExprForm.unlined, ExprForm.unbracketed, he.unbracketed_eq]

theorem ArgsRebracketed.unbracketed_eq : ∀ {es es' : List (Expr Unit)}, ArgsRebracketed es es' →
    unbracketedArgs (unlinedArgs es) = unbracketedArgs (unlinedArgs es')
  | _, _, .nil => rfl
  | _, _, .cons he hes => by
    simp only [unlinedArgs, unbracketedArgs, he.unbracketed_eq, hes.unbracketed_eq]

end

theorem unlinedBody_append {ν τ : Type} (ss ts : List (Stmt ν τ)) :
    unlinedBody (ss ++ ts) = unlinedBody ss ++ unlinedBody ts := by
  induction ss with
  | nil => rfl
  | cons s ss ih => rw [List.cons_append, unlinedBody, ih, unlinedBody, List.cons_append]

theorem spreadBody_singleton {ν τ : Type} (s : Stmt ν τ) : spreadBody [s] = s.spread :=
  List.append_nil _

mutual

theorem Stmt.Regrouped.spread_eq :
    ∀ {s s' : Stmt Unit Unit}, s.Regrouped s' → s.unlined.spread = s'.unlined.spread
  | _, _, .assign he => by simp only [Stmt.unlined, Stmt.spread, he.unbracketed_eq]
  | _, _, .arrayAssign hi he => by
    simp only [Stmt.unlined, Stmt.spread, hi.unbracketed_eq, he.unbracketed_eq]
  | _, _, .ifElse hc hs ht => by
    have yes := hs.spread_eq
    have no := ht.spread_eq
    simp only [unlinedBody, spreadBody_singleton] at yes no
    simp only [Stmt.unlined, Stmt.spread, hc.unbracketed_eq, yes, no]
  | _, _, .while hc hs => by
    have body := hs.spread_eq
    simp only [unlinedBody, spreadBody_singleton] at body
    simp only [Stmt.unlined, Stmt.spread, hc.unbracketed_eq, body]
  | _, _, .print he => by simp only [Stmt.unlined, Stmt.spread, he.unbracketed_eq]

theorem BodyRegrouped.spread_eq : ∀ {ss ss' : List (Stmt Unit Unit)}, BodyRegrouped ss ss' →
    spreadBody (unlinedBody ss) = spreadBody (unlinedBody ss')
  | _, _, .nil => rfl
  | _, _, .cons hs hss => by simp only [unlinedBody, spreadBody, hs.spread_eq, hss.spread_eq]
  | _, _, .wrap h => by
    have inside := h.spread_eq
    rw [unlinedBody_append, spreadBody_append] at inside
    simp only [unlinedBody, Stmt.unlined, spreadBody, Stmt.spread, inside]
  | _, _, .splice h => by
    have inside := h.spread_eq
    rw [unlinedBody_append, spreadBody_append] at inside
    simp only [unlinedBody, Stmt.unlined, spreadBody, Stmt.spread, inside]

end

theorem MethodDecl.Regrouped.spread_eq {m k : MethodDecl .bare} (h : m.Regrouped k) :
    m.unlined.onBodies spreadBody Expr.unbracketed =
      k.unlined.onBodies spreadBody Expr.unbracketed := by
  rw [h.same]
  simp only [MethodDecl.unlined, MethodDecl.onBodies, h.body.spread_eq, h.result.unbracketed_eq]

theorem ClassDecl.Regrouped.spread_eq {d e : ClassDecl .bare} (h : d.Regrouped e) :
    d.unlined.onBodies spreadBody Expr.unbracketed =
      e.unlined.onBodies spreadBody Expr.unbracketed := by
  rw [h.same]
  simp only [ClassDecl.unlined, ClassDecl.onBodies, List.map_map]
  refine congrArg (ClassDecl.mk _ _ _ _ _) (map_eq_of_forall₂ ?_ h.methods)
  exact fun _ _ same => same.spread_eq

/-- Programs that differ in brackets and blocks are one program without them, up to lines. -/
theorem Program.Regrouped.spread_eq {p q : Program .bare} (h : p.Regrouped q) :
    p.unlined.spread = q.unlined.spread := by
  simp only [Program.spread, Program.unlined, Program.onBodies, List.map_map]
  refine congr (congrArg Program.mk ?_) (map_eq_of_forall₂ ?_ h.classes)
  · rw [h.same]
    simp only [MainClass.unlined, MainClass.onBodies, h.main.spread_eq]
  · exact fun _ _ same => same.spread_eq

end MiniJava
