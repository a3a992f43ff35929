import Keyset.Json.Value
import Keyset.Numeral

/-!
# Reading JSON text

A text is one value with nothing but white space around it. Readers take the characters that are
left and give them back after what they read; `none` is a text that is not JSON, holds a number too
large for double precision, or is nested deeper than allowed. At least every second step reads a
character, so twice the length of the text is fuel enough.
-/
namespace Keyset.Json

def skipBlank (text : List Char) : List Char :=
  text.dropWhile fun c => c == ' ' || c == '\t' || c == '\n' || c == '\r'

/-! ## Strings -/

def hexDigit? (c : Char) : Option Nat :=
  if c.isDigit then some (c.toNat - '0'.toNat)
  else if 'a' ≤ c ∧ c ≤ 'f' then some (c.toNat - 'a'.toNat + 10)
  else if 'A' ≤ c ∧ c ≤ 'F' then some (c.toNat - 'A'.toNat + 10)
  else none

def hex4? (a b c d : Char) : Option Nat := do
  let a ← hexDigit? a
  let b ← hexDigit? b
  let c ← hexDigit? c
  let d ← hexDigit? d
  return ((a * 16 + b) * 16 + c) * 16 + d

def shortEscape? (c : Char) : Option Char :=
  if c = '"' ∨ c = '\\' ∨ c = '/' then some c
  else if c = 'b' then some '\x08'
  else if c = 'f' then some '\x0c'
  else if c = 'n' then some '\n'
  else if c = 'r' then some '\r'
  else if c = 't' then some '\t'
  else none

def isHighSurrogate (n : Nat) : Bool := 0xd800 ≤ n && n < 0xdc00

def isLowSurrogate (n : Nat) : Bool := 0xdc00 ≤ n && n < 0xe000

/-- A part of a string as it is written: a character, or the number after `\u`. -/
inductive Piece where
  | char (c : Char)
  | unit (n : Nat)

def readPieces : List Char → Option (List Piece × List Char)
  | [] => none
  | '"' :: rest => some ([], rest)
  | '\\' :: 'u' :: a :: b :: c :: d :: rest => do
    let n ← hex4? a b c d
    let (pieces, rest) ← readPieces rest
    return (.unit n :: pieces, rest)
  | '\\' :: c :: rest => do
    let c ← shortEscape? c
    let (pieces, rest) ← readPieces rest
    return (.char c :: pieces, rest)
  | c :: rest => do
    if c = '\\' ∨ c.toNat < 0x20 then none
    else
      let (pieces, rest) ← readPieces rest
      return (.char c :: pieces, rest)
termination_by structural text => text

/-- The characters of the pieces. A surrogate counts only in a pair. -/
def joinPieces : List Piece → Option (List Char)
  | [] => some []
  | .char c :: rest => (joinPieces rest).map (c :: ·)
  | .unit n :: rest =>
    if isHighSurrogate n then
      match rest with
      | .unit m :: rest =>
        if isLowSurrogate m then
          (joinPieces rest).map (Char.ofNat (0x10000 + (n - 0xd800) * 0x400 + (m - 0xdc00)) :: ·)
        else none
      | _ => none
    else if isLowSurrogate n then none
    else (joinPieces rest).map (Char.ofNat n :: ·)
termination_by structural pieces => pieces

def readString (text : List Char) : Option (String × List Char) := do
  let (pieces, rest) ← readPieces text
  let chars ← joinPieces pieces
  return (String.ofList chars, rest)

/-! ## Numbers -/

structure Spelling where
  negative : Bool
  whole : List Char
  /-- The digits after the point, none without a point. -/
  fraction : List Char
  exponent : Int
  /-- Neither a point nor an exponent is written. -/
  plain : Bool

def readFraction : List Char → Option (List Char × List Char)
  | '.' :: text =>
    let (digits, rest) := Text.splitDigits text
    if digits.isEmpty then none else some (digits, rest)
  | text => some ([], text)

def readExponentDigits (negative : Bool) (text : List Char) : Option (Int × List Char) :=
  let (digits, rest) := Text.splitDigits text
  (Text.readDigits digits).map fun n => (if negative then -(n : Int) else n, rest)

/-- An optional exponent; `none` inside is no exponent. -/
def readExponent : List Char → Option (Option Int × List Char)
  | [] => some (none, [])
  | c :: text =>
    if c = 'e' ∨ c = 'E' then
      let read := match text with
        | '-' :: digits => readExponentDigits true digits
        | '+' :: digits => readExponentDigits false digits
        | digits => readExponentDigits false digits
      read.map fun (n, rest) => (some n, rest)
    else some (none, c :: text)

/-- Reads a number as it is written: no zero in front of other digits, and digits on both sides of a
point. -/
def readSpelling (text : List Char) : Option (Spelling × List Char) := do
  let (negative, text) := match text with
    | '-' :: rest => (true, rest)
    | rest => (false, rest)
  let (whole, text) := Text.splitDigits text
  if whole.isEmpty || (whole.length != 1 && whole.head? == some '0') then none
  else
    let (fraction, rest) ← readFraction text
    let (exponent, rest) ← readExponent rest
    let plain := fraction.isEmpty && exponent.isNone
    return (⟨negative, whole, fraction, exponent.getD 0, plain⟩, rest)

/-- The number of a spelling. Without point and exponent it is an integer if that fits 64 bits;
minus zero is of double precision. -/
def Spelling.number? (spelling : Spelling) : Option Number :=
  let coefficient := Nat.ofDigitChars 10 (spelling.whole ++ spelling.fraction) 0
  let places := (spelling.fraction.length : Int)
  let fits := if spelling.negative then coefficient ≠ 0 ∧ coefficient ≤ twoTo 63
    else coefficient < twoTo 64
  if spelling.plain ∧ fits then
    some (.integer (if spelling.negative then -(coefficient : Int) else coefficient))
  else match Binary64.ofDecimal spelling.negative coefficient (spelling.exponent - places) with
    | .finite x => some (.float x)
    | _ => none

/-! ## Values -/

def readName (text : List Char) : Option (String × List Char) :=
  match skipBlank text with
  | '"' :: rest => do
    let (name, rest) ← readString rest
    match skipBlank rest with
    | ':' :: rest => return (name, rest)
    | _ => none
  | _ => none

mutual

/-- Reads a value with at most `depth` levels of arrays and objects. -/
def readValue (depth : Nat) : Nat → List Char → Option (Value × List Char)
  | 0, _ => none
  | fuel + 1, text => match skipBlank text, depth with
    | 'n' :: 'u' :: 'l' :: 'l' :: rest, _ => some (.null, rest)
    | 't' :: 'r' :: 'u' :: 'e' :: rest, _ => some (.bool true, rest)
    | 'f' :: 'a' :: 'l' :: 's' :: 'e' :: rest, _ => some (.bool false, rest)
    | '"' :: rest, _ => do
      let (s, rest) ← readString rest
      return (.string s, rest)
    | '[' :: _, 0 => none
    | '[' :: rest, depth + 1 => match skipBlank rest with
      | ']' :: rest => some (.array [], rest)
      | rest => do
        let (items, rest) ← readItems depth fuel rest
        return (.array items, rest)
    | '\x7b' :: _, 0 => none
    | '\x7b' :: rest, depth + 1 => match skipBlank rest with
      | '\x7d' :: rest => some (.object [], rest)
      | rest => do
        let (members, rest) ← readMembers depth fuel rest
        return (.ofMembers members, rest)
    | text, _ => do
      let (spelling, rest) ← readSpelling text
      let number ← spelling.number?
      return (.number number, rest)

def readItems (depth : Nat) : Nat → List Char → Option (List Value × List Char)
  | 0, _ => none
  | fuel + 1, text => do
    let (item, rest) ← readValue depth fuel text
    match skipBlank rest with
    | ',' :: rest =>
      let (items, rest) ← readItems depth fuel rest
      return (item :: items, rest)
    | ']' :: rest => return ([item], rest)
    | _ => none

def readMembers (depth : Nat) : Nat → List Char → Option (List (String × Value) × List Char)
  | 0, _ => none
  | fuel + 1, text => do
    let (name, rest) ← readName text
    let (value, rest) ← readValue depth fuel rest
    match skipBlank rest with
    | ',' :: rest =>
      let (members, rest) ← readMembers depth fuel rest
      return ((name, value) :: members, rest)
    | '\x7d' :: rest => return ([(name, value)], rest)
    | _ => none

end

/-- The fuel that suffices for a text. -/
def fuelFor (text : List Char) : Nat := 2 * text.length + 2

def atEnd {α : Type} (read : α × List Char) : Option α :=
  if (skipBlank read.2).isEmpty then some read.1 else none

/-- Reads a whole text with at most `depth` levels of arrays and objects. -/
def read? (depth : Nat) (text : String) : Option Value :=
  (readValue depth (fuelFor text.toList) text.toList).bind atEnd

def depthLimit : Nat := 127

end Keyset.Json
