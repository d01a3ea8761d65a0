import MiniJava.Proofs.IR.Structured
import MiniJava.Proofs.IR.Written

/-!
# Names inside a function

Parameters, `this`, stack slots, temporaries and blocks share one space of names. They are told
apart by how their names begin and by their underscores: a parameter begins with a dot, a temporary
has one underscore, a stack slot at least two, and a block two with digits behind the second, where a
stack slot has an identifier.
-/
namespace MiniJava.IR

section Identifier
variable {name : Name} (h : IsIdentifier name)
include h

theorem IsIdentifier.isName : IsName name := by
  intro c hc
  rw [isNameChar, h.chars c hc]
  rfl

theorem IsIdentifier.exists_head : ∃ c cs, name.toList = c :: cs ∧ c.isDigit = false := by
  have head := h.head
  cases chars : name.toList with
  | nil =>
    rw [chars] at head
    cases head
  | cons c cs =>
    rw [chars] at head
    exact ⟨c, cs, rfl, (Bool.not_eq_true' _).mp head⟩

theorem IsIdentifier.head_ne_dot : ∃ c cs, name.toList = c :: cs ∧ c ≠ '.' := by
  obtain ⟨c, cs, split, _⟩ := h.exists_head
  refine ⟨c, cs, split, ?_⟩
  rintro rfl
  cases h.chars '.' (split ▸ List.mem_cons_self)

theorem IsIdentifier.ne_digits (n : Nat) : name.toList ≠ Nat.toDigits 10 n := by
  intro digits
  obtain ⟨c, cs, split, other⟩ := h.exists_head
  have digit : c.isDigit = true :=
    Nat.isDigit_of_mem_toDigits (by decide) (by decide) (digits ▸ split ▸ List.mem_cons_self)
  rw [other] at digit
  cases digit

end Identifier

theorem nameChar_of_isDigit {c : Char} (h : c.isDigit = true) : isNameChar c = true := by
  simp [isNameChar, isIdentifierChar, Char.isAlphanum, h]

theorem named_temp (n : Nat) : (Value.temp n).Named := by
  refine IsName.append (a := "_") (by decide) fun c hc => nameChar_of_isDigit ?_
  have digits : (toString n).toList = Nat.toDigits 10 n := Nat.toList_repr
  exact Nat.isDigit_of_mem_toDigits (by decide) (by decide) (digits ▸ hc)

/-- What the slots of a function begin with: a class and a method. -/
def IsScope (scope : Name) : Prop :=
  ∃ cls method, IsIdentifier cls ∧ IsIdentifier method ∧ scope = cls ++ "_" ++ method

/-- The operands that are local to a function. -/
inductive IsLocal (scope : Name) : Value → Prop
  | this : IsLocal scope .this
  | param {x : Name} : IsIdentifier x → IsLocal scope (.param x)
  | slot {x : Name} : IsIdentifier x → IsLocal scope (.slot (scope ++ "_" ++ x))
  | temp (n : Nat) : IsLocal scope (.temp n)

def underscores (name : Name) : Nat := name.toList.count '_'

theorem underscores_append (a b : Name) : underscores (a ++ b) = underscores a + underscores b := by
  rw [underscores, String.toList_append, List.count_append]
  rfl

/-- Begins with a dot. -/
def isDotted (name : Name) : Bool := name.toList.head? == some '.'

theorem underscores_nat (n : Nat) : underscores (toString n) = 0 := by
  have digits : (toString n).toList = Nat.toDigits 10 n := Nat.toList_repr
  rw [underscores, digits]
  exact List.count_eq_zero.mpr Nat.underscore_not_in_toDigits

theorem underscores_temp (n : Nat) : underscores (Value.temp n).name = 1 :=
  (underscores_append "_" (toString n)).trans (congrArg (1 + ·) (underscores_nat n))

theorem underscores_role (r : Role) : underscores r.text = 1 := by
  cases r <;> rfl

theorem underscores_block (r : Role) (n : Nat) : underscores (Label.block r n).text = 2 := by
  have text : (Label.block r n).text = r.text ++ ("_" ++ toString n) := rfl
  rw [text, underscores_append, underscores_append, underscores_role, underscores_nat]
  rfl

section Scope
variable {scope : Name} (h : IsScope scope)
include h

theorem IsScope.isName : IsName scope := by
  obtain ⟨cls, method, hcls, hmethod, rfl⟩ := h
  exact .append (.append hcls.isName (by decide)) hmethod.isName

theorem IsScope.not_dotted (x : Name) : isDotted (scope ++ "_" ++ x) = false := by
  obtain ⟨cls, method, hcls, _, rfl⟩ := h
  obtain ⟨c, cs, split, other⟩ := hcls.head_ne_dot
  simp only [isDotted, String.append_assoc, String.toList_append, split, List.cons_append,
    List.head?_cons, beq_eq_false_iff_ne, ne_eq, Option.some.injEq]
  exact other

theorem IsScope.two_underscores (x : Name) : 2 ≤ underscores (scope ++ "_" ++ x) := by
  obtain ⟨cls, method, _, _, rfl⟩ := h
  simp only [underscores_append]
  have one : underscores "_" = 1 := rfl
  omega

/-- A stack slot is not named like a block: its last part is not a number. -/
theorem IsScope.ne_block {x : Name} (hx : IsIdentifier x) (r : Role) (n : Nat) :
    scope ++ "_" ++ x ≠ (Label.block r n).text := by
  intro same
  have count := congrArg underscores same
  rw [underscores_block] at count
  have plain : '_' ∉ x.toList := by
    refine List.count_eq_zero.mp ?_
    obtain ⟨cls, method, _, _, rfl⟩ := h
    simp only [underscores_append] at count
    have one : underscores "_" = 1 := rfl
    change underscores x = 0
    omega
  have chars := congrArg String.toList same
  rw [Label.toList_text, String.toList_append, String.toList_append, List.append_assoc] at chars
  exact hx.ne_digits n
    (append_mark_inj plain Nat.underscore_not_in_toDigits chars).2

end Scope

/-- What the text of a name tells of its kind. -/
def kindOf (name : Name) : Nat := if isDotted name then 3 else min 2 (underscores name)

section IsLocal
variable {scope : Name}

theorem IsLocal.isLocal {v : Value} (h : IsLocal scope v) : v.isLocal = true := by
  cases h <;> rfl

theorem kindOf_temp (n : Nat) : kindOf (Value.temp n).name = 1 := by
  have plain : isDotted (Value.temp n).name = false := by
    change isDotted ("_" ++ toString n) = false
    rw [isDotted, String.toList_append]
    rfl
  rw [kindOf, plain, underscores_temp]
  rfl

theorem kindOf_param (x : Name) : kindOf (Value.param x).name = 3 := by
  have dot : isDotted (Value.param x).name = true := by
    change isDotted ("." ++ x) = true
    rw [isDotted, String.toList_append]
    rfl
  rw [kindOf, dot]
  rfl

theorem kindOf_block (r : Role) (n : Nat) : kindOf (Label.block r n).text = 2 := by
  have plain : isDotted (Label.block r n).text = false := by
    rw [isDotted, Label.toList_text]
    cases r <;> rfl
  rw [kindOf, plain, underscores_block]
  rfl

variable (hscope : IsScope scope)
include hscope

theorem kindOf_slot (x : Name) : kindOf (scope ++ "_" ++ x) = 2 := by
  rw [kindOf, hscope.not_dotted x]
  exact Nat.min_eq_left (hscope.two_underscores x)

theorem IsLocal.named {v : Value} (h : IsLocal scope v) : v.Named := by
  cases h with
  | this => exact (by decide : IsName "this")
  | param hx => exact IsName.append (a := ".") (by decide) hx.isName
  | slot hx => exact IsName.append (.append hscope.isName (by decide)) hx.isName
  | temp n => exact named_temp n

/-- The kind of a local can be told from its name. -/
theorem IsLocal.kindOf_name {v : Value} (h : IsLocal scope v) : kindOf v.name =
    match v with
    | .this => 0
    | .temp _ => 1
    | .slot _ => 2
    | _ => 3 := by
  cases h with
  | this => rfl
  | param _ => exact kindOf_param _
  | slot _ => exact kindOf_slot hscope _
  | temp n => exact kindOf_temp n

/-- Locals that are different have different names. -/
theorem IsLocal.name_injective {v w : Value} (hv : IsLocal scope v) (hw : IsLocal scope w)
    (same : v.name = w.name) : v = w := by
  have kinds := congrArg kindOf same
  rw [hv.kindOf_name hscope, hw.kindOf_name hscope] at kinds
  cases hv with
  | this =>
    cases hw with
    | this => rfl
    | _ => cases kinds
  | param _ =>
    cases hw with
    | param _ => exact congrArg Value.param ((String.append_right_inj _).mp same)
    | _ => cases kinds
  | slot _ =>
    cases hw with
    | slot _ => exact congrArg Value.slot same
    | _ => cases kinds
  | temp n =>
    cases hw with
    | temp m =>
      have digits : n.repr = m.repr := (String.append_right_inj "_").mp same
      have chars := congrArg (fun s => Nat.ofDigitChars 10 s.toList 0) digits
      simp only [Nat.toList_repr, Nat.ofDigitChars_ten_toDigits] at chars
      rw [chars]
    | _ => cases kinds

/-- No local is named like a block. -/
theorem IsLocal.name_ne_label {v : Value} (hv : IsLocal scope v) (l : Label) : v.name ≠ l.text := by
  intro same
  have kinds := congrArg kindOf same
  rw [hv.kindOf_name hscope] at kinds
  cases l with
  | entry =>
    cases hv with
    | this => exact absurd same (by decide)
    | _ => cases kinds
  | block r n =>
    rw [kindOf_block] at kinds
    cases hv with
    | slot hx => exact hscope.ne_block hx r n same
    | _ => cases kinds

end IsLocal

/-- What lines introduce are the names they declare and the blocks they start. -/
theorem introduces_perm (code : List Line) : (code.flatMap Line.introduces).Perm
    ((declared code).map (·.1.name) ++ (started code).map Label.text) := by
  induction code with
  | nil => exact .nil
  | cons line code ih =>
    rw [List.flatMap_cons, declared_cons, List.map_append]
    cases line with
    | label l => exact (ih.cons l.text).trans List.perm_middle.symm
    | instr i =>
      rw [List.append_assoc]
      exact ih.append_left _

section Structured
variable {globals slots : Names} {h : Header} {code : List Line} {q : Point} {v : Value}
  {scope : Name} (s : Structured globals h slots code q v)
include s

theorem Structured.isLocal_declared (locals : ∀ x ∈ slots, IsLocal scope x.1) :
    ∀ x ∈ declared (structuredBody h slots code v), IsLocal scope x.1 := by
  rw [Structured.declared_body, declared_reserve]
  refine List.forall_mem_append.mpr ⟨List.forall_mem_map.mpr locals, fun x hx => ?_⟩
  have temps := s.region.declared_sublist.subset (List.mem_map_of_mem (f := Prod.fst) hx)
  obtain ⟨n, _, temp⟩ := List.mem_map.mp temps
  rw [← temp]
  exact .temp n

/-- The parameters, slots, temporaries and blocks of a function have different names. -/
theorem Structured.introduces_nodup (once : (started (structuredBody h slots code v)).Nodup)
    (hscope : IsScope scope) (params : ∀ a ∈ h.params, IsLocal scope a.2)
    (locals : ∀ x ∈ slots, IsLocal scope x.1) :
    (h.params.map (·.2.name) ++
      (structuredBody h slots code v).flatMap Line.introduces).Nodup := by
  have values : (h.params.map Prod.snd ++
      (declared (structuredBody h slots code v)).map Prod.fst).Nodup := by
    have all := s.distinct_body
    rw [Header.names, List.append_assoc, List.map_append, List.map_append, List.map_map] at all
    exact (List.nodup_append.mp all).2.1
  have isLocal : ∀ w ∈ h.params.map Prod.snd ++
      (declared (structuredBody h slots code v)).map Prod.fst, IsLocal scope w :=
    List.forall_mem_append.mpr ⟨List.forall_mem_map.mpr params,
      List.forall_mem_map.mpr (s.isLocal_declared locals)⟩
  have names := values.map_on fun v hv w hw same =>
    (isLocal v hv).name_injective hscope (isLocal w hw) same
  have blocks := once.map fun _ _ same => Label.text_injective same
  refine ((introduces_perm _).append_left _).nodup_iff.mpr ?_
  rw [← List.append_assoc, List.nodup_append]
  refine ⟨?_, blocks, ?_⟩
  · rw [List.map_append, List.map_map, List.map_map] at names
    exact names
  · intro n hn m hm same
    obtain ⟨l, _, rfl⟩ := List.mem_map.mp hm
    rcases List.mem_append.mp hn with hn | hn
    · obtain ⟨a, ha, rfl⟩ := List.mem_map.mp hn
      exact (params a ha).name_ne_label hscope l same
    · obtain ⟨x, hx, rfl⟩ := List.mem_map.mp hn
      exact (s.isLocal_declared locals x hx).name_ne_label hscope l same

end Structured

end MiniJava.IR
