import MiniJava.Json.Parser

/-! JSON text without blanks. -/
namespace MiniJava.Json

def intChars (n : Int) : List Char := (toString n).toList

/-- A string that is no text is written as a lone surrogate. -/
def strChars : Option String → List Char
  | some s => Quoted.encode s.toList
  | none => ['"', '\\', 'u', 'd', '8', '0', '0', '"']

mutual

def print : Json → List Char
  | .null => ['n', 'u', 'l', 'l']
  | .bool true => ['t', 'r', 'u', 'e']
  | .bool false => ['f', 'a', 'l', 's', 'e']
  | .int n => intChars n
  | .real s => s.toList
  | .str s => strChars s
  | .arr items => '[' :: (printItems items ++ [']'])
  | .obj members => '\x7b' :: (printMembers members ++ ['\x7d'])

def printItems : List Json → List Char
  | [] => []
  | [v] => print v
  | v :: vs => print v ++ ',' :: printItems vs

def printMembers : List (Option String × Json) → List Char
  | [] => []
  | [m] => printMember m
  | m :: ms => printMember m ++ ',' :: printMembers ms

def printMember : Option String × Json → List Char
  | (key, v) => strChars key ++ ':' :: print v

end

def text (v : Json) : String := String.ofList v.print

end MiniJava.Json
