import Keyset.Numeral

/-!
# Fixed-point decimals

A decimal is a magnitude of at most 96 bits with a sign and a count of decimal places, at most 28.
The count of places is kept as it was written; order and equality do not see it. Nor do they see the
sign of a zero, which a number has when it is rounded to zero from below.
-/
namespace Keyset

abbrev magnitudeLimit : Nat := 0x1000000000000000000000000

abbrev maxScale : Nat := 28

/-- The number `magnitude / 10 ^ scale` with a sign. -/
structure Fixed where
  negative : Bool
  magnitude : Nat
  scale : Nat
  magnitude_lt : magnitude < magnitudeLimit
  scale_le : scale ≤ maxScale
  deriving DecidableEq, Repr

namespace Fixed

def of? (negative : Bool) (magnitude scale : Nat) : Option Fixed :=
  if h : magnitude < magnitudeLimit ∧ scale ≤ maxScale then
    some ⟨negative, magnitude, scale, h.1, h.2⟩
  else none

def coefficient (x : Fixed) : Int := if x.negative then -(x.magnitude : Int) else x.magnitude

def ofInt64 (n : Int64) : Fixed where
  negative := n.toInt < 0
  magnitude := n.toInt.natAbs
  scale := 0
  magnitude_lt := by
    have hlow := n.le_toInt
    have hhigh := n.toInt_lt
    simp only [magnitudeLimit]
    omega
  scale_le := by decide

def compare (x y : Fixed) : Ordering :=
  Ord.compare (x.coefficient * tenTo y.scale) (y.coefficient * tenTo x.scale)

/-- The digits with all decimal places, one digit at least before the point, and no point in a
decimal without places. -/
def render (x : Fixed) : List Char :=
  let digits := Text.paddedDigits (x.scale + 1) x.magnitude
  let places := digits.length - x.scale
  let fraction := if x.scale = 0 then [] else '.' :: digits.drop places
  (if x.negative then ['-'] else []) ++ digits.take places ++ fraction

/-! ## Reading plain numbers -/

structure Reading where
  magnitude : Nat
  scale : Nat
  /-- The point has been read. -/
  pointed : Bool
  /-- A digit has been read. -/
  started : Bool
  /-- The magnitude has left the range in which one more digit surely fits 64 bits, and had not
  all its places by then. -/
  wide : Bool

def Reading.empty : Reading := ⟨0, 0, false, false, false⟩

/-- From here on a magnitude is read as a wide one. -/
def wideFrom : Nat := 0xffffffffffffffff / 10 - 255

def isIgnored (c : Char) : Bool := c.isDigit || c == '_'

/-- The number when its next digit has no place: the digit rounds it, halves away from zero, and a
magnitude that grows too large by this gives up its last place. -/
def round (reading : Reading) (digit : Nat) : Option (Nat × Nat) :=
  if digit < 5 then some (reading.magnitude, reading.scale)
  else if reading.magnitude + 1 < magnitudeLimit then
    some (reading.magnitude + 1, reading.scale)
  else if reading.scale = 0 then none
  else some ((reading.magnitude + 5) / 10, reading.scale - 1)

/-- Rounding that ends the number; only digits and underscores may follow. -/
def finish (reading : Reading) (digit : Nat) (rest : List Char) : Option (Nat × Nat) :=
  if rest.all isIgnored then round reading digit else none

/-- Reads digits with at most one point among them; underscores may follow the first digit. The
result is the magnitude and the count of places. -/
def readUnsigned (reading : Reading) : List Char → Option (Nat × Nat)
  | [] => if reading.started then some (reading.magnitude, reading.scale) else none
  | c :: rest =>
    let full := reading.pointed && reading.scale == maxScale
    if c.isDigit then
      let digit := c.toNat - '0'.toNat
      let magnitude := reading.magnitude * 10 + digit
      let scale := if reading.pointed then reading.scale + 1 else 0
      if full then finish reading digit rest
      else if magnitudeLimit ≤ magnitude then
        if reading.pointed then finish reading digit rest else none
      else
        let wide := reading.wide || (decide (wideFrom ≤ magnitude) && scale != maxScale)
        readUnsigned ⟨magnitude, scale, reading.pointed, true, wide⟩ rest
    else if c = '_' then
      if !reading.started then none
      else if full && !reading.wide then finish reading 0 rest
      else readUnsigned reading rest
    else if c = '.' then
      if reading.pointed then none
      else readUnsigned { reading with pointed := true } rest
    else none

/-- Reads an optional sign and a number without exponent. A zero gets no sign. -/
def readPlain (text : List Char) : Option Fixed :=
  let unsigned (negative : Bool) (rest : List Char) :=
    (readUnsigned .empty rest).bind fun (magnitude, scale) =>
      of? (negative && magnitude != 0) magnitude scale
  match text with
  | '-' :: rest => unsigned true rest
  | '+' :: rest => unsigned false rest
  | rest => unsigned false rest

/-! ## Reading numbers with an exponent -/

def dropPlaces (magnitude places : Nat) : Nat :=
  if places = 0 then magnitude else (magnitude + 5 * tenTo (places - 1)) / tenTo places

/-- The number divided by a power of ten. When the places do not suffice, it is rounded first, and a
zero that comes of this keeps the sign. -/
def scaleDown (x : Fixed) (exponent : Nat) : Option Fixed :=
  if x.scale + exponent ≤ maxScale then of? x.negative x.magnitude (x.scale + exponent)
  else if exponent ≤ maxScale then
    of? x.negative (dropPlaces x.magnitude (x.scale - (maxScale - exponent))) maxScale
  else none

/-- The number multiplied by a power of ten, in places as long as there are any. -/
def scaleUp (x : Fixed) (exponent : Nat) : Option Fixed :=
  if exponent ≤ x.scale then of? x.negative x.magnitude (x.scale - exponent)
  else if exponent ≤ maxScale then
    of? x.negative (x.magnitude * tenTo (exponent - x.scale)) 0
  else none

def isExponentMark (c : Char) : Bool := c == 'e' || c == 'E'

def readScientific (text : List Char) : Option Fixed :=
  match text.dropWhile fun c => !isExponentMark c with
  | [] => none
  | _ :: exponent => do
    let x ← readPlain (text.takeWhile fun c => !isExponentMark c)
    let shift (digits : List Char) (scaled : Nat → Option Fixed) := do
      let n ← Text.readNatural digits
      if n < twoTo 32 then scaled n else none
    match exponent with
    | '-' :: digits => shift digits x.scaleDown
    | digits => shift digits x.scaleUp

def read? (text : List Char) : Option Fixed :=
  (readPlain text).or (readScientific text)

end Fixed

end Keyset
