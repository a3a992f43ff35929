import Keyset.Document
import Keyset.Json.Record

/-! # JSON values as documents -/
namespace Keyset.Json

mutual

def Value.plain : Value → Plain
  | .null => .null
  | .bool b => .flag b
  | .number (.integer n) => if 0 ≤ n then .natural n.toNat else .number
  | .number (.float _) => .number
  | .string s => .text s
  | .array items => .sequence (plainItems items)
  | .object members => .mapping (plainMembers members)

def plainItems : List Value → List Plain
  | [] => []
  | x :: xs => x.plain :: plainItems xs

def plainMembers : List (String × Value) → List (Plain × Plain)
  | [] => []
  | (name, x) :: xs => (.text name, x.plain) :: plainMembers xs

end

def Value.natural? : Value → Option Nat
  | .number (.integer n) => if 0 ≤ n then some n.toNat else none
  | _ => none

/-- A value is only what it is: no text counts as a number, and no null as an empty list. -/
instance : Document Value Option where
  text? | .string s => some s | _ => none
  flag? | .bool b => some b | _ => none
  natural? := Value.natural?
  items? | .array items => some items | _ => none
  members? | .object members => some members | _ => none
  record? := Value.record?
  plain? value := some value.plain

end Keyset.Json
