/-! The inside of a JSON string: escapes are two characters or `\u` with four hexadecimal digits,
where two surrogates in a row stand for one character. -/
namespace MiniJava.Json.Quoted

/-- A character as it stands, or the number in a `\u` escape. -/
inductive Piece where
  | char (c : Char)
  | code (n : Nat)
  deriving DecidableEq

def escape? : Char → Option Char
  | '"' => some '"'
  | '\\' => some '\\'
  | '/' => some '/'
  | 'b' => some '\x08'
  | 'f' => some '\x0c'
  | 'n' => some '\n'
  | 'r' => some '\r'
  | 't' => some '\t'
  | _ => none

def hexDigit? (c : Char) : Option Nat :=
  if c.isDigit then some (c.toNat - '0'.toNat)
  else if 'a' ≤ c && c ≤ 'f' then some (c.toNat - 'a'.toNat + 10)
  else if 'A' ≤ c && c ≤ 'F' then some (c.toNat - 'A'.toNat + 10)
  else none

def isHigh (n : Nat) : Bool := 0xd800 ≤ n && n < 0xdc00

def isLow (n : Nat) : Bool := 0xdc00 ≤ n && n < 0xe000

/-- The text of the pieces; `none` if a surrogate stands alone. -/
def text? : List Piece → Option (List Char)
  | [] => some []
  | .char c :: ps => (text? ps).map (c :: ·)
  | .code n :: ps =>
    if isHigh n then
      match ps with
      | .code m :: qs =>
        if isLow m then
          (text? qs).map (Char.ofNat (0x10000 + (n - 0xd800) * 0x400 + (m - 0xdc00)) :: ·)
        else none
      | _ => none
    else if isLow n then none
    else (text? ps).map (Char.ofNat n :: ·)

def hexOf (n : Nat) : Char := (Nat.digitChar n)

/-- The escape of one character inside quotes: quote, backslash and control characters only. -/
def escaped (c : Char) : List Char :=
  if c == '"' then ['\\', '"']
  else if c == '\\' then ['\\', '\\']
  else if c == '\x08' then ['\\', 'b']
  else if c == '\x0c' then ['\\', 'f']
  else if c == '\n' then ['\\', 'n']
  else if c == '\r' then ['\\', 'r']
  else if c == '\t' then ['\\', 't']
  else if c.toNat < 0x20 then
    ['\\', 'u', '0', '0', hexOf (c.toNat / 16), hexOf (c.toNat % 16)]
  else [c]

def encode (cs : List Char) : List Char := '"' :: (cs.flatMap escaped ++ ['"'])

end MiniJava.Json.Quoted
