import MiniJava.Json.Number
import MiniJava.Json.Quoted

/-! Tokens of JSON text, found by one pass over the characters. Between tokens there may be spaces,
tabs and line ends; a raw control character inside a string is refused. -/
namespace MiniJava.Json.Lexer

/-- What has been begun and is not over; the pieces come last one first. -/
inductive Mode where
  | between
  | number (chars : List Char)
  | word (chars : List Char)
  | quoted (pieces : List Quoted.Piece)
  | escape (pieces : List Quoted.Piece)
  | hex (pieces : List Quoted.Piece) (value left : Nat)

structure State where
  mode : Mode
  tokens : List Token

def start : State := ⟨.between, []⟩

def isBlank (c : Char) : Bool := c == ' ' || c == '\t' || c == '\n' || c == '\r'

def isNumeric (c : Char) : Bool :=
  c.isDigit || c == '-' || c == '+' || c == '.' || c == 'e' || c == 'E'

def startsNumber (c : Char) : Bool := c.isDigit || c == '-'

def isLower (c : Char) : Bool := 'a' ≤ c && c ≤ 'z'

def word? (chars : List Char) : Option Json :=
  if chars == ['n', 'u', 'l', 'l'] then some .null
  else if chars == ['t', 'r', 'u', 'e'] then some (.bool true)
  else if chars == ['f', 'a', 'l', 's', 'e'] then some (.bool false)
  else none

def mark? : Char → Option Token
  | '\x7b' => some .openObj
  | '\x7d' => some .closeObj
  | '[' => some .openArr
  | ']' => some .closeArr
  | ',' => some .comma
  | ':' => some .colon
  | _ => none

/-- A character where a token may begin. -/
def fresh (tokens : List Token) (c : Char) : Option State :=
  if isBlank c then some ⟨.between, tokens⟩
  else if startsNumber c then some ⟨.number [c], tokens⟩
  else if isLower c then some ⟨.word [c], tokens⟩
  else if c == '"' then some ⟨.quoted [], tokens⟩
  else (mark? c).map fun t => ⟨.between, t :: tokens⟩

def push (tokens : List Token) (v : Json) : List Token := .scalar v :: tokens

def step (s : State) (c : Char) : Option State :=
  match s.mode with
  | .between => fresh s.tokens c
  | .number cs =>
    if isNumeric c then some ⟨.number (c :: cs), s.tokens⟩
    else (Number.read? cs.reverse).bind fun v => fresh (push s.tokens v) c
  | .word cs =>
    if isLower c then some ⟨.word (c :: cs), s.tokens⟩
    else (word? cs.reverse).bind fun v => fresh (push s.tokens v) c
  | .quoted ps =>
    if c == '"' then
      some ⟨.between, push s.tokens (.str ((Quoted.text? ps.reverse).map String.ofList))⟩
    else if c == '\\' then some ⟨.escape ps, s.tokens⟩
    else if c.toNat < 0x20 then none
    else some ⟨.quoted (.char c :: ps), s.tokens⟩
  | .escape ps =>
    if c == 'u' then some ⟨.hex ps 0 4, s.tokens⟩
    else (Quoted.escape? c).map fun e => ⟨.quoted (.char e :: ps), s.tokens⟩
  | .hex ps value left =>
    (Quoted.hexDigit? c).map fun d =>
      let value := 16 * value + d
      if left ≤ 1 then ⟨.quoted (.code value :: ps), s.tokens⟩ else ⟨.hex ps value (left - 1), s.tokens⟩

def finish (s : State) : Option (List Token) :=
  match s.mode with
  | .between => some s.tokens.reverse
  | .number cs => (Number.read? cs.reverse).map fun v => (push s.tokens v).reverse
  | .word cs => (word? cs.reverse).map fun v => (push s.tokens v).reverse
  | _ => none

def run (s : State) : List Char → Option (List Token)
  | [] => finish s
  | c :: cs =>
    match step s c with
    | none => none
    | some s => run s cs

end MiniJava.Json.Lexer

namespace MiniJava.Json

def tokens? (cs : List Char) : Option (List Token) := Lexer.run Lexer.start cs

end MiniJava.Json
