/-! How far apart two names are, and the nearest of several names. The distance is the least number of
insertions, deletions and substitutions of one character; `row as bs` holds the distances from `as` to
`bs` and to every shorter suffix of it. Names more than two edits apart have nothing to do with each
other; a name is never suggested for itself. -/
namespace MiniJava.Name

def baseRow : List Char → List Nat
  | [] => [0]
  | b :: bs => (b :: bs).length :: baseRow bs

/-- The row of `a :: as` from the row of `as`. -/
def extendRow (a : Char) : List Char → List Nat → List Nat
  | b :: bs, d :: ds =>
    let rest := extendRow a bs ds
    let change := if a = b then 0 else 1
    min (d + 1) (min (rest.headD 0 + 1) (ds.headD 0 + change)) :: rest
  | _, ds => ds.take 1 |>.map (· + 1)

def row : List Char → List Char → List Nat
  | [], bs => baseRow bs
  | a :: as, bs => extendRow a bs (row as bs)

def distance (s t : String) : Nat := (row s.toList t.toList).headD 0

inductive Relation where
  | related (distance : Nat)
  | unrelated
  deriving DecidableEq, Repr

def Relation.isRelated : Relation → Bool
  | .related _ => true
  | .unrelated => false

/-- Nearer relations come first. -/
def Relation.compare : Relation → Relation → Ordering
  | .related d, .related e => Ord.compare d e
  | .related _, .unrelated => .lt
  | .unrelated, .related _ => .gt
  | .unrelated, .unrelated => .eq

def reach : Nat := 2

def relation (s t : String) : Relation :=
  let d := distance s t
  if d ≤ reach then .related d else .unrelated

def suits (target candidate : String) : Bool :=
  candidate != target && (relation target candidate).isRelated

/-- Nearer to the target, or as near and earlier as a text. -/
def nearer (target a b : String) : Bool :=
  match (relation target a).compare (relation target b) with
  | .lt => true
  | .gt => false
  | .eq => a < b

def closer (target : String) : Option String → String → Option String
  | none, c => some c
  | some best, c => if nearer target c best then some c else some best

def closest? (target : String) (candidates : List String) : Option String :=
  (candidates.filter (suits target)).foldl (closer target) none

end MiniJava.Name
