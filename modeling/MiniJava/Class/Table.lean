import MiniJava.Syntax

/-! The classes of a program with their members, numbered in the order of declaration; the main class
is number 0. A parent has a smaller number than its children, so every chain of ancestors ends. -/
namespace MiniJava

abbrev ClassId := Nat

structure MethodRef where
  cls : ClassId
  index : Nat
  deriving DecidableEq, Repr

structure FieldRef where
  cls : ClassId
  index : Nat
  deriving DecidableEq, Repr

/-- A parameter or a local variable. -/
structure Local where
  name : Name
  ty : Ty
  line : Nat
  initialized : Bool
  deriving DecidableEq, Repr

/-- A field; the offset counts from the end of the object header. -/
structure Field where
  name : Name
  ty : Ty
  line : Nat
  offset : Option Nat := none
  initialized : Bool := false
  deriving DecidableEq, Repr

/-- A method; the locals are the parameters, then the local variables. -/
structure Method where
  name : Name
  line : Nat
  owner : ClassId
  returnTy : Ty
  paramCount : Nat := 0
  locals : List Local := []
  slotOffset : Option Nat := none
  deriving DecidableEq, Repr

namespace Method

def params (m : Method) : List Local := m.locals.take m.paramCount

def paramTys (m : Method) : List Ty := m.params.map (·.ty)

/-- Bytes of one entry in a table of methods. -/
def slotSize : Nat := 8

def slot? (m : Method) : Option Nat := m.slotOffset.map (· / slotSize)

end Method

/-- A method that a class takes over from an ancestor. -/
structure Inherited where
  name : Name
  method : MethodRef
  deriving DecidableEq, Repr

/-- The static method `main`. -/
structure EntryPoint where
  param : Name
  locals : List Local := []
  deriving DecidableEq, Repr

structure Class where
  name : Name
  line : Nat
  parent : Option ClassId := none
  fields : List Field := []
  methods : List Method := []
  inherited : List Inherited := []
  entry : Option EntryPoint := none
  deriving DecidableEq, Repr

namespace Class

def isMain (c : Class) : Bool := c.entry.isSome

end Class

/-- The classes by their numbers, and their numbers by their names. The two are kept apart: looking up a
name does not read the classes. -/
@[ext]
structure ClassTable where
  classes : Array Class
  byName : List (Name × ClassId)

namespace ClassTable

def empty : ClassTable := ⟨#[], []⟩

def size (t : ClassTable) : Nat := t.classes.size

def isEmpty (t : ClassTable) : Bool := t.classes.isEmpty

def get? (t : ClassTable) (c : ClassId) : Option Class := t.classes[c]?

def find? (t : ClassTable) (name : Name) : Option ClassId := t.byName.lookup name

/-- Gives a class the next number, and the number to its name. -/
def push (t : ClassTable) (k : Class) : ClassTable :=
  ⟨t.classes.push k, (k.name, t.size) :: t.byName⟩

/-- The number of a new class, and the table with it. A class is refused if its name is taken. -/
def add (t : ClassTable) (k : Class) : Option ClassId × ClassTable :=
  match t.find? k.name with
  | some _ => (none, t)
  | none => (some t.size, t.push k)

def add? (t : ClassTable) (k : Class) : Option (ClassId × ClassTable) :=
  let (id, t) := t.add k
  id.map (·, t)

def modify (t : ClassTable) (c : ClassId) (f : Class → Class) : ClassTable :=
  { t with classes := t.classes.modify c f }

def addField (t : ClassTable) (c : ClassId) (f : Field) : ClassTable :=
  t.modify c fun k => { k with fields := k.fields ++ [f] }

def addMethod (t : ClassTable) (c : ClassId) (m : Method) : ClassTable :=
  t.modify c fun k => { k with methods := k.methods ++ [m] }

def setInherited (t : ClassTable) (c : ClassId) (inherited : List Inherited) : ClassTable :=
  t.modify c fun k => { k with inherited }

def ids (t : ClassTable) : List ClassId := List.range t.size

def names (t : ClassTable) : List Name := t.classes.toList.map (·.name)

def nameOf (t : ClassTable) (c : ClassId) : Name := ((t.get? c).map (·.name)).getD ""

def parent? (t : ClassTable) (c : ClassId) : Option ClassId := (t.get? c).bind (·.parent)

def fields (t : ClassTable) (c : ClassId) : List Field := ((t.get? c).map (·.fields)).getD []

def methods (t : ClassTable) (c : ClassId) : List Method := ((t.get? c).map (·.methods)).getD []

def isMain (t : ClassTable) (c : ClassId) : Bool := (t.get? c).any (·.isMain)

def field? (t : ClassTable) (r : FieldRef) : Option Field := (t.fields r.cls)[r.index]?

def method? (t : ClassTable) (r : MethodRef) : Option Method := (t.methods r.cls)[r.index]?

def modifyField (t : ClassTable) (r : FieldRef) (f : Field → Field) : ClassTable :=
  t.modify r.cls fun c => { c with fields := c.fields.modify r.index f }

def modifyMethod (t : ClassTable) (r : MethodRef) (f : Method → Method) : ClassTable :=
  t.modify r.cls fun c => { c with methods := c.methods.modify r.index f }

/-- At most `steps` ancestors. -/
def climb (t : ClassTable) : Nat → ClassId → List ClassId
  | 0, _ => []
  | steps + 1, c =>
    match t.parent? c with
    | none => []
    | some p => p :: t.climb steps p

/-- Parent, grandparent and so on. A class has no more ancestors than its number says. -/
def ancestors (t : ClassTable) (c : ClassId) : List ClassId := t.climb c c

def chain (t : ClassTable) (c : ClassId) : List ClassId := c :: t.ancestors c

def root (t : ClassTable) (c : ClassId) : ClassId := (t.ancestors c).getLast?.getD c

def isSubclass (t : ClassTable) (sub sup : ClassId) : Bool := (t.chain sub).contains sup

def isValidTy (t : ClassTable) : Ty → Bool
  | .object name => (t.find? name).isSome
  | _ => true

/-- Whether a value of type `source` may stand where `target` is declared: classes widen to their
ancestors, and a class that is not declared fits itself only. -/
def assignable (t : ClassTable) (target source : Ty) : Bool :=
  match target, source with
  | .object a, .object b =>
    match t.find? a, t.find? b with
    | some sup, some sub => t.isSubclass sub sup
    | _, _ => a == b
  | a, b => a == b

def ownField? (t : ClassTable) (c : ClassId) (name : Name) : Option Nat :=
  (t.fields c).findIdx? (·.name == name)

def ownMethod? (t : ClassTable) (c : ClassId) (name : Name) : Option Nat :=
  (t.methods c).findIdx? (·.name == name)

/-- The nearest declaration of a field on the chain of a class. -/
def findField? (t : ClassTable) (c : ClassId) (name : Name) : Option FieldRef :=
  (t.chain c).findSome? fun k => (t.ownField? k name).map (FieldRef.mk k)

/-- The nearest declaration of a method on the chain of a class. -/
def findMethod? (t : ClassTable) (c : ClassId) (name : Name) : Option MethodRef :=
  (t.chain c).findSome? fun k => (t.ownMethod? k name).map (MethodRef.mk k)

def visibleFields (t : ClassTable) (c : ClassId) : List Field := (t.chain c).flatMap t.fields

def visibleMethods (t : ClassTable) (c : ClassId) : List Method := (t.chain c).flatMap t.methods

end ClassTable

end MiniJava
