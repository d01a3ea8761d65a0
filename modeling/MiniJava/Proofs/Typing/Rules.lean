import MiniJava.Check.Body
import MiniJava.Identity
import MiniJava.Proofs.Class.Chain
import MiniJava.Proofs.Notes

/-!
# Typing rules

What it means for a body to be well typed, as rules over the program as it was read and the class
table of its declarations. The rules say nothing of reports, of notes or of variables that are read
before they are assigned. A rule for expressions also says what a name, a message or a new object
refers to.
-/
namespace MiniJava.Typing

open Check (Scope Place Note Target)

/-- The nearest field of a name: the one of the class itself, else the one that its parent sees. -/
inductive SeesField (t : ClassTable) : ClassId → Name → FieldRef → Prop
  | own {c : ClassId} {x : Name} {i : Nat} : t.ownField? c x = some i → SeesField t c x ⟨c, i⟩
  | inherited {c p : ClassId} {x : Name} {r : FieldRef} : t.ownField? c x = none →
      t.parent? c = some p → SeesField t p x r → SeesField t c x r

/-- The nearest method of a name. -/
inductive SeesMethod (t : ClassTable) : ClassId → Name → MethodRef → Prop
  | own {c : ClassId} {m : Name} {i : Nat} : t.ownMethod? c m = some i → SeesMethod t c m ⟨c, i⟩
  | inherited {c p : ClassId} {m : Name} {r : MethodRef} : t.ownMethod? c m = none →
      t.parent? c = some p → SeesMethod t p m r → SeesMethod t c m r

/-- A value of the second type may stand where the first one is declared. -/
inductive Assignable (t : ClassTable) : Ty → Ty → Prop
  | same (ty : Ty) : Assignable t ty ty
  | widen {a b : Name} {sup sub : ClassId} : t.find? a = some sup → t.find? b = some sub →
      t.Descends sub sup → Assignable t (.object a) (.object b)

/-- What a name stands for, and its type: a local, else a field, but never the parameter of
`main`. -/
inductive Denotes (s : Scope) : Name → VarRef → Ty → Prop
  | loc {x : Name} {i : Nat} {l : Local} : s.locals.findIdx? (·.name == x) = some i →
      s.locals[i]? = some l → Denotes s x (.loc i) l.ty
  | field {x : Name} {r : FieldRef} {f : Field} : (∀ l ∈ s.locals, l.name ≠ x) →
      s.isMainParam x = false → SeesField s.table s.place.cls x r → s.table.field? r = some f →
      Denotes s x (.field r) f.ty

mutual

inductive HasType (s : Scope) : Expr Unit → ExprInfo → Prop
  | and {n : Nat} {a b : Expr Unit} {r q : Option Ref} :
      HasType s a ⟨.boolean, r⟩ → HasType s b ⟨.boolean, q⟩ →
      HasType s (.node n () (.binary .and a b)) ⟨.boolean, none⟩
  | less {n : Nat} {a b : Expr Unit} {r q : Option Ref} :
      HasType s a ⟨.int, r⟩ → HasType s b ⟨.int, q⟩ →
      HasType s (.node n () (.binary .less a b)) ⟨.boolean, none⟩
  | arith {n : Nat} {op : BinOp} {a b : Expr Unit} {r q : Option Ref} :
      op = .add ∨ op = .sub ∨ op = .mul → HasType s a ⟨.int, r⟩ → HasType s b ⟨.int, q⟩ →
      HasType s (.node n () (.binary op a b)) ⟨.int, none⟩
  | lookup {n : Nat} {a i : Expr Unit} {array element : Ty} {r q : Option Ref} :
      HasType s a ⟨array, r⟩ → array.element? = some element → HasType s i ⟨.int, q⟩ →
      HasType s (.node n () (.lookup a i)) ⟨element, none⟩
  | length {n : Nat} {a : Expr Unit} {array element : Ty} {r : Option Ref} :
      HasType s a ⟨array, r⟩ → array.element? = some element →
      HasType s (.node n () (.length a)) ⟨.int, none⟩
  | send {n : Nat} {e : Expr Unit} {cls m : Name} {args : List (Expr Unit)} {r : Option Ref}
      {c : ClassId} {ref : MethodRef} {k : Method} :
      HasType s e ⟨.object cls, r⟩ → s.table.find? cls = some c → SeesMethod s.table c m ref →
      s.table.method? ref = some k → ArgsFit s k.paramTys args →
      HasType s (.node n () (.send e m args)) ⟨k.returnTy, some (.method ref)⟩
  | int {n : Nat} {v : Int32} : HasType s (.node n () (.int v)) ⟨.int, none⟩
  | tt {n : Nat} : HasType s (.node n () .tt) ⟨.boolean, none⟩
  | ff {n : Nat} : HasType s (.node n () .ff) ⟨.boolean, none⟩
  | name {n : Nat} {x : Name} {v : VarRef} {ty : Ty} : Denotes s x v ty →
      HasType s (.node n () (.name x)) ⟨ty, some (.var v)⟩
  | this {n : Nat} {m : MethodRef} : s.place.method = some m →
      HasType s (.node n () .this) ⟨.object (s.table.nameOf s.place.cls), none⟩
  | newIntArray {n : Nat} {e : Expr Unit} {r : Option Ref} : HasType s e ⟨.int, r⟩ →
      HasType s (.node n () (.newIntArray e)) ⟨.intArray, none⟩
  | newBooleanArray {n : Nat} {e : Expr Unit} {r : Option Ref} : HasType s e ⟨.int, r⟩ →
      HasType s (.node n () (.newBooleanArray e)) ⟨.booleanArray, none⟩
  | newObject {n : Nat} {cls : Name} {c : ClassId} : s.table.find? cls = some c →
      s.table.isMain c = false →
      HasType s (.node n () (.newObject cls)) ⟨.object cls, some (.cls c)⟩
  | not {n : Nat} {e : Expr Unit} {r : Option Ref} : HasType s e ⟨.boolean, r⟩ →
      HasType s (.node n () (.not e)) ⟨.boolean, none⟩
  | bracket {n : Nat} {e : Expr Unit} {i : ExprInfo} : HasType s e i →
      HasType s (.node n () (.bracket e)) i

/-- As many arguments as parameters, each of which fits. -/
inductive ArgsFit (s : Scope) : List Ty → List (Expr Unit) → Prop
  | nil : ArgsFit s [] []
  | cons {ty : Ty} {tys : List Ty} {e : Expr Unit} {es : List (Expr Unit)} {i : ExprInfo} :
      HasType s e i → Assignable s.table ty i.ty → ArgsFit s tys es →
      ArgsFit s (ty :: tys) (e :: es)

end

inductive StmtTyped (s : Scope) : Stmt Unit Unit → Prop
  | block {n : Nat} {body : List (Stmt Unit Unit)} : (∀ st ∈ body, StmtTyped s st) →
      StmtTyped s (.block n body)
  | assign {n : Nat} {x : Name} {v : VarRef} {ty : Ty} {e : Expr Unit} {i : ExprInfo} :
      Denotes s x v ty → HasType s e i → Assignable s.table ty i.ty →
      StmtTyped s (.assign n x () e)
  | arrayAssign {n : Nat} {x : Name} {v : VarRef} {array element : Ty} {index e : Expr Unit}
      {r q : Option Ref} : Denotes s x v array → array.element? = some element →
      HasType s index ⟨.int, r⟩ → HasType s e ⟨element, q⟩ →
      StmtTyped s (.arrayAssign n x () index e)
  | ifElse {n : Nat} {c : Expr Unit} {yes no : Stmt Unit Unit} {r : Option Ref} :
      HasType s c ⟨.boolean, r⟩ → StmtTyped s yes → StmtTyped s no →
      StmtTyped s (.ifElse n c yes no)
  | while {n : Nat} {c : Expr Unit} {body : Stmt Unit Unit} {r : Option Ref} :
      HasType s c ⟨.boolean, r⟩ → StmtTyped s body → StmtTyped s (.while n c body)
  | print {n : Nat} {e : Expr Unit} {r : Option Ref} : HasType s e ⟨.int, r⟩ →
      StmtTyped s (.print n e)

def BodyTyped (s : Scope) (body : List (Stmt Unit Unit)) : Prop := ∀ st ∈ body, StmtTyped s st

def mainScope (t : ClassTable) : Scope := ⟨t, ⟨0, none⟩⟩

def methodScope (t : ClassTable) (r : MethodRef) : Scope := ⟨t, ⟨r.cls, some r⟩⟩

/-- The value that a method returns fits its return type. -/
def ResultFits (t : ClassTable) (r : MethodRef) (result : Expr Unit) : Prop :=
  ∃ k i, t.method? r = some k ∧ HasType (methodScope t r) result i ∧ Assignable t k.returnTy i.ty

/-- A method is declared in the class of a name under its own name. -/
def Declared (t : ClassTable) (cls method : Name) (r : MethodRef) : Prop :=
  t.find? cls = some r.cls ∧ t.ownMethod? r.cls method = some r.index

/-- The statements and the return expression of a method. -/
def MethodTyped (t : ClassTable) (cls : Name) (m : MethodDecl .bare) : Prop :=
  ∃ r, Declared t cls m.name r ∧ BodyTyped (methodScope t r) m.body ∧ ResultFits t r m.result

/-- Every statement and every return expression of a program has a derivation. -/
structure ProgramTyped (t : ClassTable) (p : Program .bare) : Prop where
  main : BodyTyped (mainScope t) p.main.body
  methods : ∀ c ∈ p.classes, ∀ m ∈ c.methods, MethodTyped t c.name m

/-- The note of an expression is what the rules derive for it, and nothing else is derivable. -/
def NoteFits (s : Scope) (e : Expr Note) : Prop :=
  ∃ i, e.note = some i ∧ ∀ j, HasType s e.bare j ↔ j = i

/-- The notes of an expression and of all inside it are what the rules derive for them. -/
def ExprRecorded (s : Scope) (e : Expr Note) : Prop := ∀ x ∈ e.all, NoteFits s x

/-- The target of an assignment is what its name denotes. -/
def TargetRecorded (s : Scope) (x : Name) (note : Target) : Prop :=
  ∃ v ty, note = some v ∧ Denotes s x v ty ∧ ∀ w ty', Denotes s x w ty' → w = v ∧ ty' = ty

def ItemRecorded (s : Scope) : Item Note Target → Prop
  | .expr e => NoteFits s e
  | .target x note => TargetRecorded s x.value note

/-- Every expression and every target of a statement is recorded. -/
def StmtRecorded (s : Scope) (st : Stmt Note Target) : Prop := ∀ x ∈ st.items, ItemRecorded s x

def BodyRecorded (s : Scope) (body : List (Stmt Note Target)) : Prop :=
  ∀ x ∈ bodyItems body, ItemRecorded s x

/-- A method carries its reference, and its body and its return expression are recorded. -/
def MethodRecorded (t : ClassTable) (cls : Name) (m : MethodDecl .checked) : Prop :=
  ∃ r, m.note = some r ∧ Declared t cls m.name r ∧ ∀ x ∈ m.items, ItemRecorded (methodScope t r) x

structure ClassRecorded (t : ClassTable) (c : ClassDecl .checked) : Prop where
  note : ∃ id, c.note = some id ∧ t.find? c.name = some id
  methods : ∀ m ∈ c.methods, MethodRecorded t c.name m

/-- Every expression and every target of a program is recorded. -/
structure ProgramRecorded (t : ClassTable) (p : Program .checked) : Prop where
  main : BodyRecorded (mainScope t) p.main.body
  classes : ∀ c ∈ p.classes, ClassRecorded t c

end MiniJava.Typing
