import MiniJava.Json.Basic

/-! Spellings of JSON numbers: an optional minus, an integer part without leading zeros, then a
fraction and an exponent, both optional. -/
namespace MiniJava.Json.Number

def natOf (digits : List Char) : Nat :=
  digits.foldl (fun n c => 10 * n + (c.toNat - '0'.toNat)) 0

def isWhole : List Char → Bool
  | [] => false
  | ['0'] => true
  | '0' :: _ => false
  | c :: cs => (c :: cs).all Char.isDigit

def areDigits (cs : List Char) : Bool := !cs.isEmpty && cs.all Char.isDigit

def unsigned : List Char → List Char
  | '+' :: cs | '-' :: cs => cs
  | cs => cs

def isExponentMark (c : Char) : Bool := c == 'e' || c == 'E'

/-- A fraction and an exponent, either of which may be missing. -/
def isTail (cs : List Char) : Bool :=
  let fraction := cs.takeWhile (!isExponentMark ·)
  let exponent := cs.dropWhile (!isExponentMark ·)
  (match fraction with
    | [] => true
    | '.' :: ds => areDigits ds
    | _ => false) &&
  match exponent with
    | [] => true
    | _ :: ds => areDigits (unsigned ds)

/-- Reads the spelling of a number; a zero with a minus is not an integer. -/
def read? (cs : List Char) : Option Json :=
  let negative := cs.head? == some '-'
  let body := if negative then cs.tail else cs
  let whole := body.takeWhile Char.isDigit
  let rest := body.dropWhile Char.isDigit
  if isWhole whole && isTail rest then
    if rest.isEmpty && !(negative && natOf whole == 0) then
      some (.int (if negative then -(natOf whole : Int) else natOf whole))
    else some (.real (String.ofList cs))
  else none

end MiniJava.Json.Number
