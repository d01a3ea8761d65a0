import MiniJava.Document.Reader

/-!
# The format of documents as a schema

Every position of a document has a shape: a record with its fields, a choice between variants, a
list, a tuple, or one of a few plain values. Reading by shape needs one rule for each kind of shape.
-/

namespace MiniJava.Document
open Json

inductive Record where
  | program
  | main
  | cls
  | method
  | var
  | stmt
  | expr

inductive Choice where
  | ty
  | kind
  | form

inductive Tuple where
  | operands
  | message
  | assignment
  | arrayAssignment
  | branch
  | loop

/-- What stands at a position of a document. -/
inductive Shape where
  /-- the content of a variant without content -/
  | unit
  | line
  | name
  | superclass
  | literal
  | record (r : Record)
  | choice (c : Choice)
  | list (item : Record)
  | tuple (t : Tuple)

/-- The fields of a record, in their order. -/
def Record.fields : Record → List (String × Shape)
  | .program => [("main_class", .record .main), ("classes", .list .cls)]
  | .main =>
    [("line", .line), ("name", .name), ("param_name", .name), ("vars", .list .var),
      ("statements", .list .stmt)]
  | .cls =>
    [("line", .line), ("name", .name), ("superclass", .superclass),
      ("fields", .list .var), ("methods", .list .method)]
  | .method =>
    [("line", .line), ("return_ty", .choice .ty), ("name", .name),
      ("params", .list .var), ("vars", .list .var),
      ("statements", .list .stmt), ("return_expr", .record .expr)]
  | .var => [("line", .line), ("ty", .choice .ty), ("name", .name)]
  | .stmt => [("line", .line), ("kind", .choice .kind)]
  | .expr => [("line", .line), ("kind", .choice .form)]

def Tuple.parts : Tuple → List Shape
  | .operands => [.record .expr, .record .expr]
  | .message => [.record .expr, .name, .list .expr]
  | .assignment => [.name, .record .expr]
  | .arrayAssignment => [.name, .record .expr, .record .expr]
  | .branch => [.record .expr, .record .stmt, .record .stmt]
  | .loop => [.record .expr, .record .stmt]

def Record.names (r : Record) : List String := r.fields.map (·.1)

def Record.shapes (r : Record) : List Shape := r.fields.map (·.2)

@[reducible] def Record.Tree : Record → Type
  | .program => Program .bare
  | .main => MainClass .bare
  | .cls => ClassDecl .bare
  | .method => MethodDecl .bare
  | .var => VarDecl
  | .stmt => Stmt Unit Unit
  | .expr => Expr Unit

/-- The kind of a statement waits for its line. -/
@[reducible] def Choice.Tree : Choice → Type
  | .ty => Ty
  | .kind => Nat → Stmt Unit Unit
  | .form => ExprForm Unit

@[reducible] def Tuple.Tree : Tuple → Type
  | .operands => Expr Unit × Expr Unit
  | .message => Expr Unit × Name × List (Expr Unit)
  | .assignment => Name × Expr Unit
  | .arrayAssignment => Name × Expr Unit × Expr Unit
  | .branch => Expr Unit × Stmt Unit Unit × Stmt Unit Unit
  | .loop => Expr Unit × Stmt Unit Unit

@[reducible] def Shape.Tree : Shape → Type
  | .unit => Unit
  | .line => Nat
  | .name => Name
  | .superclass => Option Name
  | .literal => Int32
  | .record r => r.Tree
  | .choice c => c.Tree
  | .list item => List item.Tree
  | .tuple t => t.Tree

/-- Functions of what is read at some positions. -/
@[reducible] def Takes (β : Type) : List Shape → Type
  | [] => β
  | s :: ss => s.Tree → Takes β ss

/-- A variant: the shape of its content, and what it makes of the content. -/
structure Variant (c : Choice) where
  content : Shape
  make : content.Tree → c.Tree

def Variant.plain {c : Choice} (t : c.Tree) : Variant c := ⟨.unit, fun _ => t⟩

def tyVariant? : String → Option (Variant .ty)
  | "Int" => some (.plain Ty.int)
  | "Boolean" => some (.plain Ty.boolean)
  | "IntArray" => some (.plain Ty.intArray)
  | "BooleanArray" => some (.plain Ty.booleanArray)
  | "Class" => some ⟨.name, Ty.object⟩
  | _ => none

def kindVariant? : String → Option (Variant .kind)
  | "Block" => some ⟨.list .stmt, fun body line => Stmt.block line body⟩
  | "Assign" => some ⟨.tuple .assignment, fun (x, e) line => Stmt.assign line x () e⟩
  | "ArrayAssign" =>
    some ⟨.tuple .arrayAssignment, fun (x, i, e) line => Stmt.arrayAssign line x () i e⟩
  | "If" => some ⟨.tuple .branch, fun (c, s, t) line => Stmt.ifElse line c s t⟩
  | "While" => some ⟨.tuple .loop, fun (c, s) line => Stmt.while line c s⟩
  | "Print" => some ⟨.record .expr, fun e line => Stmt.print line e⟩
  | _ => none

def Variant.binary (make : Expr Unit → Expr Unit → ExprForm Unit) : Variant .form :=
  ⟨.tuple .operands, fun (a, b) => make a b⟩

def Variant.unary (make : Expr Unit → ExprForm Unit) : Variant .form := ⟨.record .expr, make⟩

def formVariant? : String → Option (Variant .form)
  | "And" => some (.binary (.binary .and))
  | "Less" => some (.binary (.binary .less))
  | "Plus" => some (.binary (.binary .add))
  | "Minus" => some (.binary (.binary .sub))
  | "Times" => some (.binary (.binary .mul))
  | "ArrayLookup" => some (.binary .lookup)
  | "ArrayLength" => some (.unary .length)
  | "MessageSend" => some ⟨.tuple .message, fun (r, m, args) => ExprForm.send r m args⟩
  | "Int" => some ⟨.literal, ExprForm.int⟩
  | "True" => some (.plain ExprForm.tt)
  | "False" => some (.plain ExprForm.ff)
  | "Identifier" => some ⟨.name, ExprForm.name⟩
  | "This" => some (.plain ExprForm.this)
  | "NewIntArray" => some (.unary .newIntArray)
  | "NewBooleanArray" => some (.unary .newBooleanArray)
  | "NewObject" => some ⟨.name, ExprForm.newObject⟩
  | "Not" => some (.unary .not)
  | "Bracket" => some (.unary .bracket)
  | _ => none

def Choice.variant? : (c : Choice) → String → Option (Variant c)
  | .ty => tyVariant?
  | .kind => kindVariant?
  | .form => formVariant?

/-- The shape of the content that belongs to a tag. -/
def Choice.content? (c : Choice) (tag : String) : Option Shape := (c.variant? tag).map (·.content)

def Record.make : (r : Record) → Takes r.Tree r.shapes
  | .program => @Program.mk .bare
  | .main => @MainClass.mk .bare
  | .cls => fun line => @ClassDecl.mk .bare line ()
  | .method => fun line => @MethodDecl.mk .bare line ()
  | .var => VarDecl.mk
  | .stmt => fun line kind => kind line
  | .expr => fun line => Expr.node line ()

def Tuple.make : (t : Tuple) → Takes t.Tree t.parts
  | .operands => fun a b => (a, b)
  | .message => fun r m args => (r, m, args)
  | .assignment => fun x e => (x, e)
  | .arrayAssignment => fun x i e => (x, i, e)
  | .branch => fun c s t => (c, s, t)
  | .loop => fun c s => (c, s)

/-- What a field that is left out stands for; `none` if it is required. -/
def Shape.absent? : (s : Shape) → Option s.Tree
  | .line => some defaultLine
  | .superclass => some (none : Option Name)
  | .list item => some ([] : List item.Tree)
  | _ => none

/-- How to write what a field stands for that is left out. -/
def Shape.default? : Shape → Option Json
  | .line => some (.int 1)
  | .superclass => some .null
  | .list _ => some (.arr [])
  | _ => none

section
variable (read : (s : Shape) → Json → Option s.Tree)

def readSlot (s : Shape) : Option Json → Option s.Tree
  | none => s.absent?
  | some v => read s v

/-- A slot for each position, read in their order. -/
def readSlots {β : Type} : (ss : List Shape) → Takes β ss → List (Option Json) → Option β
  | [], make, [] => some make
  | s :: ss, make, slot :: slots => (readSlot read s slot).bind fun x => readSlots ss (make x) slots
  | [], _, _ :: _ | _ :: _, _, [] => none

/-- The value of a variant that is written as a string. -/
def Variant.plain? {c : Choice} : Variant c → Option c.Tree
  | ⟨.unit, make⟩ => some (make ())
  | _ => none

/-- Values that open no level. -/
def Shape.shallow? : (s : Shape) → Json → Option s.Tree
  | .unit, .null => some ()
  | .line, v => nat64? v
  | .name, v => text? v
  | .superclass, v => superclass? (some v)
  | .literal, v => int32? v
  | .choice c, .str (some tag) => (c.variant? tag).bind Variant.plain?
  | _, _ => none

/-- Values that open a level, with what is inside read below it. -/
def Shape.deep? : (s : Shape) → Json → Option s.Tree
  | .record r, v => (record? r.names v).bind (readSlots read r.shapes r.make)
  | .list item, .arr items => items.mapM (read (.record item))
  | .tuple t, .arr items => readSlots read t.parts t.make (items.map some)
  | .choice c, .obj [(some tag, content)] =>
    (c.variant? tag).bind fun variant => (read variant.content content).map variant.make
  | s, v => s.shallow? v

end

/-- Reading with so many levels that may be opened. -/
def Shape.read? : Nat → (s : Shape) → Json → Option s.Tree
  | 0, s => s.shallow?
  | n + 1, s => s.deep? (read? n)

theorem read?_record (r : Record) (n : Nat) (v : Json) : (Shape.record r).read? (n + 1) v =
    (record? r.names v).bind (readSlots (Shape.read? n) r.shapes r.make) :=
  rfl

theorem read?_record_zero (r : Record) (v : Json) : (Shape.record r).read? 0 v = none := by
  cases v <;> rfl

theorem read?_list_zero (item : Record) (v : Json) : (Shape.list item).read? 0 v = none := by
  cases v <;> rfl

theorem read?_tuple (t : Tuple) (n : Nat) (items : List Json) :
    (Shape.tuple t).read? (n + 1) (.arr items) =
      readSlots (Shape.read? n) t.parts t.make (items.map some) := rfl

theorem read?_tuple_zero (t : Tuple) (v : Json) : (Shape.tuple t).read? 0 v = none := by
  cases v <;> rfl

theorem record?_length {names : List String} {v : Json} {slots : List (Option Json)}
    (h : record? names v = some slots) : slots.length = names.length := by
  unfold record? at h
  split at h
  · split at h
    · obtain rfl := Option.some.inj h
      simp
    · simp at h
  · split at h
    · next short =>
      obtain rfl := Option.some.inj h
      simp
      omega
    · simp at h
  · simp at h

/-- There has to be a slot for each position. -/
theorem readSlots_none {β : Type} {read : (s : Shape) → Json → Option s.Tree} {ss : List Shape}
    {slots : List (Option Json)} (h : slots.length ≠ ss.length) (make : Takes β ss) :
    readSlots read ss make slots = none := by
  induction ss generalizing slots with
  | nil =>
    cases slots with
    | nil => exact absurd rfl h
    | cons slot slots => rfl
  | cons s ss ih =>
    cases slots with
    | nil => rfl
    | cons slot slots =>
      have shorter : slots.length ≠ ss.length := by simpa using h
      rw [readSlots]
      simp [ih shorter]

/-- No slot may fail. -/
theorem readSlots_eq_none {β : Type} {read : (s : Shape) → Json → Option s.Tree} {ss : List Shape}
    {slots : List (Option Json)} (i : Nat) {s : Shape} {slot : Option Json} (hs : ss[i]? = some s)
    (hslot : slots[i]? = some slot) (h : readSlot read s slot = none) (make : Takes β ss) :
    readSlots read ss make slots = none := by
  induction ss generalizing slots i with
  | nil => simp at hs
  | cons t ss ih =>
    cases slots with
    | nil => rfl
    | cons first slots =>
      rw [readSlots]
      cases i with
      | zero =>
        obtain rfl := Option.some.inj hs
        obtain rfl := Option.some.inj hslot
        rw [h]
        rfl
      | succ i =>
        rw [funext fun x => ih i hs hslot (make x)]
        exact Option.bind_fun_none _

theorem readSlot_of_readSlots {β : Type} {read : (s : Shape) → Json → Option s.Tree}
    {ss : List Shape} {slots : List (Option Json)} {make : Takes β ss} {y : β}
    (h : readSlots read ss make slots = some y) {i : Nat} {s : Shape} {slot : Option Json}
    (hs : ss[i]? = some s) (hslot : slots[i]? = some slot) :
    ∃ x, readSlot read s slot = some x := by
  refine Option.ne_none_iff_exists'.mp fun none => ?_
  rw [readSlots_eq_none i hs hslot none make] at h
  cases h

/-- Only what is read from each slot matters. -/
theorem readSlots_congr {β : Type} {read read' : (s : Shape) → Json → Option s.Tree}
    {ss : List Shape} {slots slots' : List (Option Json)} (make : Takes β ss)
    (length : slots.length = slots'.length)
    (same : ∀ (i : Nat) (s : Shape) (slot slot' : Option Json), ss[i]? = some s →
      slots[i]? = some slot → slots'[i]? = some slot' →
      readSlot read s slot = readSlot read' s slot') :
    readSlots read ss make slots = readSlots read' ss make slots' := by
  induction ss generalizing slots slots' with
  | nil =>
    match slots, slots', length with
    | [], [], _ => rfl
    | _ :: _, _ :: _, _ => rfl
  | cons s ss ih =>
    match slots, slots', length with
    | [], [], _ => rfl
    | slot :: slots, slot' :: slots', length =>
      rw [readSlots, readSlots, same 0 s slot slot' rfl rfl rfl]
      exact congrArg _ (funext fun x => ih (make x) (Nat.succ.inj length)
        fun i t u u' ht hu hu' => same (i + 1) t u u' ht hu hu')

theorem read?_tuple_none {t : Tuple} {items : List Json} (h : items.length ≠ t.parts.length)
    (n : Nat) : (Shape.tuple t).read? n (.arr items) = none := by
  cases n with
  | zero => exact read?_tuple_zero t _
  | succ n =>
    rw [read?_tuple]
    exact readSlots_none (by simpa using h) t.make

end MiniJava.Document
