import MiniJava.Json.Basic

/-! Records in JSON: objects, or arrays of the fields in their order. -/
namespace MiniJava.Json

/-- The fields of a record by name. A known key may stand only once, unknown keys do not matter;
an array may end early. -/
def record? (names : List String) : Json → Option (List (Option Json))
  | .obj members =>
    if members.all (·.1.isSome) && names.all (fun n => members.countP (·.1 == some n) ≤ 1) then
      some (names.map fun n => members.lookup (some n))
    else none
  | .arr items =>
    if items.length ≤ names.length then
      some (items.map some ++ List.replicate (names.length - items.length) none)
    else none
  | _ => none

def isRecordKey (names : List String) : Option String → Bool
  | some key => names.contains key
  | none => false

/-- A record without unknown keys. -/
def strictRecord? (names : List String) : Json → Option (List (Option Json))
  | .obj members =>
    if members.all (isRecordKey names ·.1) then record? names (.obj members) else none
  | v => record? names v

def natBelow? (bound : Nat) : Json → Option Nat
  | .int n => if 0 ≤ n && n < bound then some n.toNat else none
  | _ => none

def nat64? (v : Json) : Option Nat := natBelow? UInt64.size v

def int32? : Json → Option Int32
  | .int n => if -2147483648 ≤ n && n ≤ 2147483647 then some (Int32.ofInt n) else none
  | _ => none

def text? : Json → Option String
  | .str s => s
  | _ => none

end MiniJava.Json
