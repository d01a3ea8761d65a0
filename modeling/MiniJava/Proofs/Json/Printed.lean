import Mathlib.Data.List.TakeWhile
import MiniJava.Json.Printer
import MiniJava.Proofs.Json.Tokens

/-!
# Printed values

What is printed spells the value: escapes name the characters of a string, decimal digits the
integer, and no number or word runs into what stands behind it.
-/

namespace MiniJava.Json

theorem natOf_toDigits (n : Nat) : Number.natOf (Nat.toDigits 10 n) = n :=
  Nat.ofDigitChars_ten_toDigits

theorem all_isDigit_toDigits (n : Nat) : ∀ c ∈ Nat.toDigits 10 n, c.isDigit = true :=
  fun _ hc => Nat.isDigit_of_mem_toDigits (by decide) (by decide) hc

theorem head?_toDigits {n : Nat} (positive : n ≠ 0) : (Nat.toDigits 10 n).head? ≠ some '0' := by
  induction n using Nat.strongRecOn with
  | ind n ih =>
    by_cases small : n < 10
    · rw [Nat.toDigits_of_lt_base small]
      have : ∀ m < 10, m ≠ 0 → ¬ [m.digitChar].head? = some '0' := by decide
      exact this n small positive
    · have front := ih (n / 10) (by omega) (by omega)
      rw [Nat.toDigits_of_base_le (by decide) (by omega)]
      cases hd : Nat.toDigits 10 (n / 10) with
      | nil => exact absurd hd Nat.toDigits_ne_nil
      | cons c cs => rwa [hd] at front

theorem isWhole_toDigits (n : Nat) : Number.isWhole (Nat.toDigits 10 n) = true := by
  by_cases zero : n = 0
  · rw [zero]; rfl
  · have digits := all_isDigit_toDigits n
    have head := head?_toDigits zero
    cases hd : Nat.toDigits 10 n with
    | nil => exact absurd hd Nat.toDigits_ne_nil
    | cons c cs =>
      rw [hd] at digits head
      have hc : c ≠ '0' := by simpa using head
      rw [Number.isWhole]
      · exact List.all_eq_true.mpr digits
      · rintro rfl rfl; exact hc rfl
      · rintro rfl; exact hc rfl

theorem takeWhile_toDigits (n : Nat) :
    (Nat.toDigits 10 n).takeWhile Char.isDigit = Nat.toDigits 10 n :=
  List.takeWhile_eq_self_iff.mpr (all_isDigit_toDigits n)

theorem dropWhile_toDigits (n : Nat) : (Nat.toDigits 10 n).dropWhile Char.isDigit = [] :=
  List.dropWhile_eq_nil_iff.mpr (all_isDigit_toDigits n)

theorem read?_toDigits (n : Nat) : Number.read? (Nat.toDigits 10 n) = some (.int n) := by
  have positive : ((Nat.toDigits 10 n).head? == some '-') = false := by
    refine Bool.eq_false_iff.mpr fun h => ?_
    have minus := all_isDigit_toDigits n '-' (List.mem_of_head? (eq_of_beq h))
    exact absurd minus (by decide)
  simp only [Number.read?, positive, Bool.false_eq_true, if_false, takeWhile_toDigits,
    dropWhile_toDigits, isWhole_toDigits, natOf_toDigits]
  rfl

theorem read?_minus_toDigits (n : Nat) :
    Number.read? ('-' :: Nat.toDigits 10 (n + 1)) = some (.int (.negSucc n)) := by
  simp only [Number.read?, List.head?_cons, BEq.rfl, if_true, List.tail_cons, takeWhile_toDigits,
    dropWhile_toDigits, isWhole_toDigits, natOf_toDigits]
  rfl

theorem read?_intChars (n : Int) : Number.read? (intChars n) = some (.int n) := by
  cases n with
  | ofNat n =>
    have chars : intChars (.ofNat n) = Nat.toDigits 10 n := Nat.toList_repr
    rw [chars, read?_toDigits]
    rfl
  | negSucc n =>
    have chars : intChars (.negSucc n) = '-' :: Nat.toDigits 10 (n + 1) := by
      change ("-" ++ (n + 1).repr).toList = _
      rw [String.toList_append, Nat.toList_repr]
      rfl
    rw [chars, read?_minus_toDigits]

theorem hexFrom?_control : ∀ n < 0x20,
    hexFrom? 0 ['0', '0', Quoted.hexOf (n / 16), Quoted.hexOf (n % 16)] = some n := by decide

/-- The escape of a character is the spelling of one piece, and the piece is that character. -/
theorem inside_escaped (c : Char) : ∃ p : Quoted.Piece,
    (∀ ps cs, Inside ps cs → Inside (p :: ps) (Quoted.escaped c ++ cs)) ∧
      ∀ ps, Quoted.text? (p :: ps) = (Quoted.text? ps).map (c :: ·) := by
  unfold Quoted.escaped
  split
  · next h => obtain rfl := eq_of_beq h; exact ⟨.char '"', fun _ _ => .escape rfl, fun _ => rfl⟩
  split
  · next h => obtain rfl := eq_of_beq h; exact ⟨.char '\\', fun _ _ => .escape rfl, fun _ => rfl⟩
  split
  · next h => obtain rfl := eq_of_beq h; exact ⟨.char '\x08', fun _ _ => .escape rfl, fun _ => rfl⟩
  split
  · next h => obtain rfl := eq_of_beq h; exact ⟨.char '\x0c', fun _ _ => .escape rfl, fun _ => rfl⟩
  split
  · next h => obtain rfl := eq_of_beq h; exact ⟨.char '\n', fun _ _ => .escape rfl, fun _ => rfl⟩
  split
  · next h => obtain rfl := eq_of_beq h; exact ⟨.char '\r', fun _ _ => .escape rfl, fun _ => rfl⟩
  split
  · next h => obtain rfl := eq_of_beq h; exact ⟨.char '\t', fun _ _ => .escape rfl, fun _ => rfl⟩
  split
  · next control =>
    refine ⟨.code c.toNat, fun ps cs => .code rfl (hexFrom?_control c.toNat control), fun ps => ?_⟩
    have high : Quoted.isHigh c.toNat = false := by simp [Quoted.isHigh]; omega
    have low : Quoted.isLow c.toNat = false := by simp [Quoted.isLow]; omega
    rw [Quoted.text?.eq_def]
    simp only [high, low, Bool.false_eq_true, if_false, Char.ofNat_toNat]
  · next quote slash _ _ _ _ _ control =>
    exact ⟨.char c, fun _ _ => .char (by simpa using quote) (by simpa using slash) control,
      fun _ => rfl⟩

theorem inside_encode (cs : List Char) :
    ∃ ps, Inside ps (cs.flatMap Quoted.escaped) ∧ Quoted.text? ps = some cs := by
  induction cs with
  | nil => exact ⟨[], .done, rfl⟩
  | cons c cs ih =>
    obtain ⟨ps, inside, text⟩ := ih
    obtain ⟨p, spells, means⟩ := inside_escaped c
    exact ⟨p :: ps, spells ps _ inside, by rw [means, text]; rfl⟩

theorem lexed_strChars (s : Option String) {ts : List Token} {cs : List Char}
    (rest : Lexed ts cs) : Lexed (.scalar (.str s) :: ts) (strChars s ++ cs) := by
  cases s with
  | none =>
    have code : Inside [.code 0xd800] ('\\' :: 'u' :: (['d', '8', '0', '0'] ++ [])) :=
      .code rfl rfl .done
    exact .quoted code rest
  | some s =>
    obtain ⟨ps, inside, text⟩ := inside_encode s.toList
    have := Lexed.quoted inside rest
    rw [text, Option.map_some, String.ofList_toList] at this
    simpa [strChars, Quoted.encode] using this

mutual

/-- Numbers that are no integers stand as they can be read. -/
def Exact : Json → Prop
  | .real s => Number.read? s.toList = some (.real s)
  | .arr items => ItemsExact items
  | .obj members => MembersExact members
  | .null | .bool _ | .int _ | .str _ => True

def ItemsExact : List Json → Prop
  | [] => True
  | v :: vs => v.Exact ∧ ItemsExact vs

def MembersExact : List (Option String × Json) → Prop
  | [] => True
  | (_, v) :: ms => v.Exact ∧ MembersExact ms

end

/-- What can stand behind a number or a word. -/
def Delimited (cs : List Char) : Prop := Stops Lexer.isNumeric cs ∧ Stops Lexer.isLower cs

theorem delimited_nil : Delimited [] := ⟨stops_nil _, stops_nil _⟩

theorem delimited_mark {c : Char} (cs : List Char)
    (hc : Lexer.isNumeric c = false ∧ Lexer.isLower c = false) : Delimited (c :: cs) := by
  rw [← Bool.not_eq_true, ← Bool.not_eq_true] at hc
  exact ⟨stops_cons hc.1 cs, stops_cons hc.2 cs⟩

theorem delimited_comma (cs : List Char) : Delimited (',' :: cs) := delimited_mark cs (by decide)

theorem delimited_closeArr (cs : List Char) : Delimited (']' :: cs) := delimited_mark cs (by decide)

theorem delimited_closeObj (cs : List Char) : Delimited ('\x7d' :: cs) :=
  delimited_mark cs (by decide)

mutual

theorem lexed_print : ∀ (v : Json) (ts : List Token) (cs : List Char), v.Exact → Delimited cs →
    Lexed ts cs → Lexed (v.tokens ++ ts) (v.print ++ cs)
  | .null, _, _, _, stop, rest => .word rfl stop.2 rest
  | .bool true, _, _, _, stop, rest => .word rfl stop.2 rest
  | .bool false, _, _, _, stop, rest => .word rfl stop.2 rest
  | .int n, _, _, _, stop, rest => .number (read?_intChars n) stop.1 rest
  | .real _, _, _, exact, stop, rest => .number exact stop.1 rest
  | .str s, _, _, _, _, rest => lexed_strChars s rest
  | .arr items, ts, cs, exact, _, rest => by
    rw [tokens, print, List.cons_append, List.cons_append, List.append_assoc, List.append_assoc]
    have close : Lexed (.closeArr :: ts) (']' :: cs) := .mark rfl rest
    exact .mark rfl (lexed_printItems items _ _ exact (delimited_closeArr cs) close)
  | .obj members, ts, cs, exact, _, rest => by
    rw [tokens, print, List.cons_append, List.cons_append, List.append_assoc, List.append_assoc]
    have close : Lexed (.closeObj :: ts) ('\x7d' :: cs) := .mark rfl rest
    exact .mark rfl (lexed_printMembers members _ _ exact (delimited_closeObj cs) close)

theorem lexed_printItems : ∀ (vs : List Json) (ts : List Token) (cs : List Char), ItemsExact vs →
    Delimited cs → Lexed ts cs → Lexed (itemTokens vs ++ ts) (printItems vs ++ cs)
  | [], _, _, _, _, rest => rest
  | [v], ts, cs, exact, stop, rest => lexed_print v ts cs exact.1 stop rest
  | v :: u :: vs, ts, cs, exact, stop, rest => by
    have more := lexed_printItems (u :: vs) ts cs exact.2 stop rest
    have both := lexed_print v _ _ exact.1 (delimited_comma _) (.mark rfl more)
    simpa [itemTokens, printItems] using both

theorem lexed_printMembers : ∀ (ms : List (Option String × Json)) (ts : List Token)
    (cs : List Char), MembersExact ms → Delimited cs → Lexed ts cs →
    Lexed (memberTokens ms ++ ts) (printMembers ms ++ cs)
  | [], _, _, _, _, rest => rest
  | [(key, v)], ts, cs, exact, stop, rest => by
    have value := lexed_print v ts cs exact.1 stop rest
    have member := lexed_strChars key (.mark (c := ':') rfl value)
    simpa [memberTokens, memberToken, printMembers, printMember] using member
  | (key, v) :: m :: ms, ts, cs, exact, stop, rest => by
    have more := lexed_printMembers (m :: ms) ts cs exact.2 stop rest
    have value := lexed_print v _ _ exact.1 (delimited_comma _) (.mark rfl more)
    have member := lexed_strChars key (.mark (c := ':') rfl value)
    simpa [memberTokens, memberToken, printMembers, printMember] using member

end

theorem spells_print {v : Json} (exact : v.Exact) : Spells v v.print := by
  have := lexed_print v [] [] exact delimited_nil .done
  rwa [List.append_nil, List.append_nil] at this

/-- Parsing undoes printing. -/
theorem parse?_print {v : Json} (exact : v.Exact) : parse? v.print = some v :=
  parse?_iff.mpr (spells_print exact)

end MiniJava.Json
