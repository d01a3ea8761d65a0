import MiniJava.Json.Lexer

/-! Values from tokens, by one pass with a stack of open brackets, so nesting costs no recursion. -/
namespace MiniJava.Json

/-- An open bracket and what it holds so far, last one first; `key` names the value to come. -/
inductive Frame where
  | arr (items : List Json)
  | obj (members : List (Option String × Json)) (key : Option String)

namespace Parser

inductive State where
  /-- a value has to come -/
  | value (stack : List Frame)
  /-- just inside an array: a value or the closing bracket -/
  | first (stack : List Frame)
  /-- a key has to come; just inside an object the closing bracket will do -/
  | key (stack : List Frame) (members : List (Option String × Json))
  | colon (stack : List Frame) (members : List (Option String × Json)) (key : Option String)
  /-- a value is complete -/
  | after (stack : List Frame) (value : Json)

def start : State := .value []

def open? (stack : List Frame) : Token → Option State
  | .scalar v => some (.after stack v)
  | .openArr => some (.first stack)
  | .openObj => some (.key stack [])
  | _ => none

def step : State → Token → Option State
  | .value stack, t => open? stack t
  | .first stack, .closeArr => some (.after stack (.arr []))
  | .first stack, t => open? (.arr [] :: stack) t
  | .key stack ms, .scalar (.str k) => some (.colon stack ms k)
  | .key stack [], .closeObj => some (.after stack (.obj []))
  | .colon stack ms k, .colon => some (.value (.obj ms k :: stack))
  | .after (.arr items :: stack) v, .comma => some (.value (.arr (v :: items) :: stack))
  | .after (.arr items :: stack) v, .closeArr => some (.after stack (.arr (v :: items).reverse))
  | .after (.obj ms k :: stack) v, .comma => some (.key stack ((k, v) :: ms))
  | .after (.obj ms k :: stack) v, .closeObj => some (.after stack (.obj ((k, v) :: ms).reverse))
  | _, _ => none

def finish : State → Option Json
  | .after [] v => some v
  | _ => none

def run (s : State) : List Token → Option Json
  | [] => finish s
  | t :: ts =>
    match step s t with
    | none => none
    | some s => run s ts

end Parser

def parse? (cs : List Char) : Option Json := (tokens? cs).bind (Parser.run Parser.start)

end MiniJava.Json
