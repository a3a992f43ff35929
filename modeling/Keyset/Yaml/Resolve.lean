import Keyset.Document
import Keyset.Json.Reader
import Keyset.Number.Binary64
import Keyset.Numeral

/-!
# What plain scalars are

A scalar that is written without quotes is a null, a flag or a number if it looks like one, and
otherwise a text.
-/
namespace Keyset.Yaml

def nullNames : List String := ["null", "Null", "NULL", "~"]

def flag? (text : String) : Option Bool :=
  if ["true", "True", "TRUE"].contains text then some true
  else if ["false", "False", "FALSE"].contains text then some false
  else none

/-! ## Integers -/

/-- Whether a number has needless zeros in front and is therefore a text. -/
def hasLeadingZeros (text : List Char) : Bool :=
  let digits := match text with
    | '-' :: rest => rest
    | '+' :: rest => rest
    | rest => rest
  match digits with
  | '0' :: d :: rest => (d :: rest).all Char.isDigit
  | _ => false

def inBase? (base : Nat) (digits : List Char) : Option Nat := do
  if digits.isEmpty then none
  else
    let values ← digits.mapM Json.hexDigit?
    if values.all (· < base) then return values.foldl (fun n digit => n * base + digit) 0 else none

def base? (c : Char) : Option Nat := [('x', 16), ('o', 8), ('b', 2)].lookup c

/-- The number of digits with the mark of their base, or of decimal digits. -/
def magnitude? : List Char → Option Nat
  | '0' :: mark :: rest => match base? mark with
    | some base => inBase? base rest
    | none => inBase? 10 ('0' :: mark :: rest)
  | digits => inBase? 10 digits

def natural? (text : List Char) : Option Nat :=
  if hasLeadingZeros text then none
  else match text with
    | '+' :: rest => magnitude? rest
    | rest => magnitude? rest

/-- The natural number below which a negative number lies, with its minus sign. -/
def negated? (text : List Char) : Option Nat :=
  if hasLeadingZeros text then none
  else match text with
    | '-' :: rest => magnitude? rest
    | _ => none

/-! ## Other numbers -/

def infinityNames : List String := [".inf", ".Inf", ".INF"]

def nanNames : List String := [".nan", ".NaN", ".NAN"]

/-- Digits with an optional point and an optional exponent: the coefficient and its power of ten. -/
def decimal? (text : List Char) : Option (Nat × Int) := do
  let (whole, rest) := Text.splitDigits text
  let (fraction, rest) := match rest with
    | '.' :: rest => Text.splitDigits rest
    | rest => ([], rest)
  let coefficient ← Text.readDigits (whole ++ fraction)
  let (exponent, rest) ← Json.readExponent rest
  if rest.isEmpty then return (coefficient, exponent.getD 0 - fraction.length) else none

def isFinite (text : List Char) : Bool :=
  match decimal? text with
  | some (coefficient, exponent) => match Binary64.ofDecimal false coefficient exponent with
    | .finite _ => true
    | _ => false
  | none => false

def isReal (text : String) : Bool :=
  if nanNames.contains text then true
  else match text.toList with
    | '-' :: rest => infinityNames.contains (String.ofList rest) || isFinite rest
    | '+' :: rest => infinityNames.contains (String.ofList rest) || isFinite rest
    | rest => infinityNames.contains text || isFinite rest

/-! ## Plain scalars -/

/-- An integer by itself. One that needs more than 64 bits but not more than 128 is nothing. -/
def integer? (text : List Char) : Option (Option Plain) :=
  match natural? text, negated? text with
  | some n, _ =>
    if n < twoTo 64 then some (some (.natural n)) else if n < twoTo 128 then some none else none
  | none, some n =>
    if n ≤ twoTo 63 then some (some .number) else if n ≤ twoTo 127 then some none else none
  | none, none => none

def resolve (text : String) : Option Plain :=
  if text = "" ∨ nullNames.contains text then some .null
  else match flag? text with
    | some b => some (.flag b)
    | none => match integer? text.toList with
      | some plain => plain
      | none =>
        if !hasLeadingZeros text.toList && isReal text then some .number else some (.text text)

end Keyset.Yaml
