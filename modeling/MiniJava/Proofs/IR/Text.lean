import MiniJava.IR.Module
import MiniJava.Proofs.IR.Blocks
import MiniJava.Proofs.IR.Typing

/-!
# Names in the text of a module

What can be read off a text without knowing how it was made. A global is named behind an `@` and a
local behind a `%`, as far as the characters of names go; a line that begins with `@`, `define` or
`declare` introduces the first global in it. In a function the parameters are introduced by the
first line, values by what stands in front of a line, and blocks by lines that end in a colon.
-/
namespace MiniJava.IR

/-- What is beyond ASCII counts as a letter. -/
def isIdentifierChar (c : Char) : Bool := c.isAlphanum || c == '_' || 128 ≤ c.toNat

/-- Letters, digits and underscores, and no digit at first. -/
structure IsIdentifier (name : Name) : Prop where
  head : name.toList.head?.any (!·.isDigit) = true
  chars : ∀ c ∈ name.toList, isIdentifierChar c = true

instance : DecidablePred IsIdentifier := fun name =>
  decidable_of_iff (name.toList.head?.any (!·.isDigit) && name.toList.all isIdentifierChar)
    ⟨fun h => ⟨(Bool.and_eq_true_iff.mp h).1, List.all_eq_true.mp (Bool.and_eq_true_iff.mp h).2⟩,
      fun h => Bool.and_eq_true_iff.mpr ⟨h.head, List.all_eq_true.mpr h.chars⟩⟩

/-- The names of a module also have dots. -/
def isNameChar (c : Char) : Bool := isIdentifierChar c || c == '.'

/-- The whole name is read, if it stands behind a mark. -/
def IsName (name : Name) : Prop := ∀ c ∈ name.toList, isNameChar c = true

instance : DecidablePred IsName := fun name =>
  decidable_of_iff (name.toList.all isNameChar) List.all_eq_true

/-- The names behind every mark. -/
def marked (mark : Char) : List Char → List Name
  | [] => []
  | c :: cs =>
    if c = mark then String.ofList (cs.takeWhile isNameChar) :: marked mark cs else marked mark cs

def lines (text : String) : List (List Char) := text.toList.splitOn '\n'

/-- The global that a line declares or defines. -/
def definedBy (line : List Char) : List Name :=
  if "@".toList.isPrefixOf line || "define ".toList.isPrefixOf line ||
      "declare ".toList.isPrefixOf line then (marked '@' line).take 1
  else []

def definitionsIn (text : String) : List Name := (lines text).flatMap definedBy

def globalsIn (text : String) : List Name := marked '@' text.toList

/-- The locals that a line of a function introduces. -/
def introducedBy : List Char → List Name
  | '\t' :: '%' :: line => (marked '%' ('%' :: line)).take 1
  | '\t' :: _ => []
  | line =>
    if "define ".toList.isPrefixOf line then marked '%' line
    else if line.getLast? = some ':' then [String.ofList line.dropLast] else []

def localsIn (text : String) : List Name := (lines text).flatMap introducedBy

theorem IsName.append {a b : Name} (ha : IsName a) (hb : IsName b) : IsName (a ++ b) := by
  rw [IsName, String.toList_append]
  exact List.forall_mem_append.mpr ⟨ha, hb⟩

section Marked
variable {mark : Char}

/-- The name in front of a text ends where the text begins. -/
def Apart (text : List Char) : Prop := ∀ c ∈ text.head?, isNameChar c = false

theorem apart_nil : Apart [] := fun c hc => by cases hc

theorem takeWhile_append_apart {rest : List Char} (apart : Apart rest) (cs : List Char) :
    (cs ++ rest).takeWhile isNameChar = cs.takeWhile isNameChar := by
  induction cs with
  | nil =>
    cases rest with
    | nil => rfl
    | cons c rest => exact List.takeWhile_cons_of_neg (by simp [apart c rfl])
  | cons c cs ih =>
    rw [List.cons_append, List.takeWhile_cons, List.takeWhile_cons, ih]

theorem marked_append {rest : List Char} (apart : Apart rest) (cs : List Char) :
    marked mark (cs ++ rest) = marked mark cs ++ marked mark rest := by
  induction cs with
  | nil => rfl
  | cons c cs ih =>
    rw [List.cons_append, marked, marked, takeWhile_append_apart apart, ih]
    split <;> rfl

theorem marked_of_not_mem {cs : List Char} (silent : mark ∉ cs) : marked mark cs = [] := by
  induction cs with
  | nil => rfl
  | cons c cs ih =>
    obtain ⟨other, silent⟩ := not_or.mp (mt List.mem_cons.mpr silent)
    rw [marked, if_neg (Ne.symm other), ih silent]

/-- Nothing is named in a text without the mark, however it goes on. -/
theorem marked_silent_append {cs : List Char} (silent : mark ∉ cs) (rest : List Char) :
    marked mark (cs ++ rest) = marked mark rest := by
  induction cs with
  | nil => rfl
  | cons c cs ih =>
    obtain ⟨other, silent⟩ := not_or.mp (mt List.mem_cons.mpr silent)
    rw [List.cons_append, marked, if_neg (Ne.symm other), ih silent]

variable (mark) in
theorem marked_name (hmark : isNameChar mark = false) {name : Name}
    (chars : IsName name) {rest : List Char} (apart : Apart rest) :
    marked mark (mark :: (name.toList ++ rest)) = name :: marked mark rest := by
  have silent : mark ∉ name.toList := by
    intro inside
    rw [chars mark inside] at hmark
    cases hmark
  have ends : rest.takeWhile isNameChar = [] := takeWhile_append_apart apart []
  rw [marked, if_pos rfl, marked_silent_append silent, List.takeWhile_append_of_pos chars, ends,
    List.append_nil, String.ofList_toList]

end Marked

/-- A text in lines is split where the lines end. -/
theorem lines_join {rows : List String} (whole : ∀ row ∈ rows, '\n' ∉ row.toList) :
    lines (String.join (rows.map (· ++ "\n"))) = rows.map String.toList ++ [[]] := by
  induction rows with
  | nil => rfl
  | cons row rows ih =>
    obtain ⟨here, whole⟩ := List.forall_mem_cons.mp whole
    have text : (String.join ((row :: rows).map (· ++ "\n"))).toList =
        row.toList ++ '\n' :: (String.join (rows.map (· ++ "\n"))).toList := by
      rw [List.map_cons, String.join_cons, String.toList_append, String.toList_append,
        List.append_assoc]
      rfl
    rw [lines, text, List.splitOn_append_cons_self_of_not_mem here, ← lines, ih whole]
    rfl

/-- A text of whole lines. -/
def Complete (text : String) : Prop := text = "" ∨ ∃ cs, text.toList = cs ++ ['\n']

section Complete
variable {text : String} (h : Complete text) (rest : String)
include h

theorem Complete.lines_append {f : List Char → List Name} (empty : f [] = []) :
    (lines (text ++ rest)).flatMap f = (lines text).flatMap f ++ (lines rest).flatMap f := by
  have last : List.flatMap f [[]] = [] := by rw [List.flatMap_singleton, empty]
  rcases h with rfl | ⟨cs, split⟩
  · have none : lines "" = [[]] := rfl
    rw [String.empty_append, none, last, List.nil_append]
  · have whole : lines text = cs.splitOn '\n' ++ [[]] := by
      rw [lines, split]
      exact List.splitOnP_append_cons cs [] (beq_self_eq_true _)
    have more : lines (text ++ rest) = cs.splitOn '\n' ++ lines rest := by
      rw [lines, String.toList_append, split, List.append_assoc]
      exact List.splitOnP_append_cons cs rest.toList (beq_self_eq_true _)
    rw [whole, more, List.flatMap_append, List.flatMap_append, last, List.append_nil]

theorem Complete.definitionsIn_append :
    definitionsIn (text ++ rest) = definitionsIn text ++ definitionsIn rest :=
  h.lines_append rest rfl

theorem Complete.localsIn_append : localsIn (text ++ rest) = localsIn text ++ localsIn rest :=
  h.lines_append rest rfl

theorem Complete.globalsIn_append :
    globalsIn (text ++ rest) = globalsIn text ++ globalsIn rest := by
  rcases h with rfl | ⟨cs, split⟩
  · rw [String.empty_append]
    rfl
  · have ends : ∀ more, marked '@' (cs ++ '\n' :: more) = marked '@' cs ++ marked '@' more := by
      intro more
      refine (marked_append (fun c hc => ?_) cs).trans rfl
      obtain rfl := Option.some.inj hc
      rfl
    have whole : globalsIn text = marked '@' cs := by
      rw [globalsIn, split, ends]
      exact List.append_nil _
    rw [whole, globalsIn, String.toList_append, split, List.append_assoc]
    exact ends rest.toList

theorem Complete.append {rest : String} (h' : Complete rest) : Complete (text ++ rest) := by
  rcases h' with rfl | ⟨cs, split⟩
  · rwa [String.append_empty]
  · exact Or.inr ⟨text.toList ++ cs, by rw [String.toList_append, split, List.append_assoc]⟩

end Complete

/-- Nothing that tells lines, globals or locals apart. -/
def isSilent (c : Char) : Bool := c != '\n' && c != '@' && c != '%'

def Silent (s : String) : Prop := ∀ c ∈ s.toList, isSilent c = true

instance : DecidablePred Silent := fun s =>
  decidable_of_iff (s.toList.all isSilent) List.all_eq_true

theorem Silent.append {a b : String} (ha : Silent a) (hb : Silent b) : Silent (a ++ b) := by
  intro c hc
  rw [String.toList_append] at hc
  exact (List.mem_append.mp hc).elim (ha c) (hb c)

theorem Silent.not_mem {s : String} (h : Silent s) {mark : Char} (hmark : isSilent mark = false) :
    mark ∉ s.toList := by
  intro inside
  rw [h mark inside] at hmark
  cases hmark

theorem silent_nat (n : Nat) : Silent (toString n) := by
  intro c hc
  have digits : (toString n).toList = Nat.toDigits 10 n := Nat.toList_repr
  rw [digits] at hc
  have digit := Nat.isDigit_of_mem_toDigits (by decide) (by decide) hc
  rw [isSilent]
  refine Bool.and_eq_true_iff.mpr ⟨Bool.and_eq_true_iff.mpr ⟨?_, ?_⟩, ?_⟩ <;>
    exact bne_iff_ne.mpr fun same => by rw [same] at digit; cases digit

theorem silent_int (n : Int) : Silent (toString n) := by
  cases n with
  | ofNat n => exact silent_nat n
  | negSucc n => exact Silent.append (a := "-") (by decide) (silent_nat (n + 1))

mutual

theorem silent_tyText : ∀ ty : IRType, Silent ty.text
  | .void | .i1 | .i8 | .i32 => by decide
  | .ptr ty => (silent_tyText ty).append (by decide)
  | .array n ty =>
    .append (.append (.append (.append (by decide) (silent_nat n)) (by decide)) (silent_tyText ty))
      (by decide)
  | .fn ty tys =>
    .append (.append ((silent_tyText ty).append (by decide)) (silent_paramsText tys)) (by decide)

theorem silent_paramsText : ∀ tys : List IRType, Silent (paramsText tys)
  | [] => by decide
  | [ty] => silent_tyText ty
  | ty :: ty' :: tys =>
    .append ((silent_tyText ty).append (by decide)) (silent_paramsText (ty' :: tys))

end

theorem Label.silent_text : ∀ l : Label, Silent l.text
  | .entry => by decide
  | .block role n => by
    have role : Silent role.text := by cases role <;> decide
    exact role.append (Silent.append (a := "_") (by decide) (silent_nat n))

end MiniJava.IR
