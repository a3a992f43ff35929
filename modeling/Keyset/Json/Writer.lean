import Keyset.Json.Value
import Keyset.Number.Shortest

/-! # The compact text of JSON values -/
namespace Keyset.Json

/-- Numbers from 0.00001 to below 10^16 are written without a power of ten and with a point, and the
even one of two digits that are equally near is taken. -/
def floatLayout : FloatLayout where
  tie := .even
  positional := fun leading => -5 ≤ leading && leading < 16
  wholePoint := true

def Number.chars : Number → List Char
  | .integer n => Text.integerDigits n
  | .float x => floatLayout.render x

/-- One character of a string: quotes, backslashes and controls are escaped, nothing else. -/
def escapeChar (c : Char) : List Char :=
  if c = '"' then ['\\', '"']
  else if c = '\\' then ['\\', '\\']
  else if c.toNat = 8 then ['\\', 'b']
  else if c.toNat = 12 then ['\\', 'f']
  else if c = '\n' then ['\\', 'n']
  else if c = '\r' then ['\\', 'r']
  else if c = '\t' then ['\\', 't']
  else if c.toNat < 0x20 then
    ['\\', 'u', '0', '0', Nat.digitChar (c.toNat / 16), Nat.digitChar (c.toNat % 16)]
  else [c]

def stringChars (s : String) : List Char := '"' :: (s.toList.flatMap escapeChar ++ ['"'])

mutual

def Value.chars : Value → List Char
  | .null => ['n', 'u', 'l', 'l']
  | .bool true => ['t', 'r', 'u', 'e']
  | .bool false => ['f', 'a', 'l', 's', 'e']
  | .number n => n.chars
  | .string s => stringChars s
  | .array items => '[' :: (itemsChars items ++ [']'])
  | .object members => '\x7b' :: (membersChars members ++ ['\x7d'])

def itemsChars : List Value → List Char
  | [] => []
  | [x] => x.chars
  | x :: y :: rest => x.chars ++ ',' :: itemsChars (y :: rest)

def membersChars : List (String × Value) → List Char
  | [] => []
  | [(name, x)] => stringChars name ++ ':' :: x.chars
  | (name, x) :: y :: rest =>
    stringChars name ++ ':' :: (x.chars ++ ',' :: membersChars (y :: rest))

end

def Value.text (v : Value) : String := String.ofList v.chars

/-- The text of an object whose members stand in the given order. -/
def recordText (members : List (String × Value)) : String :=
  String.ofList ('\x7b' :: (membersChars members ++ ['\x7d']))

end Keyset.Json
