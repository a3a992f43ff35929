import Keyset.Number.Binary64
import Keyset.Numeral

/-!
# The fewest digits that read back

A finite number is written with as few digits as name it among all double-precision numbers, and
with the nearest such digits. What is left to a format (which of two equally near digits is taken,
and where the point goes) is a `FloatLayout`.
-/
namespace Keyset

/-- A non-negative number written as a coefficient and a power of ten. -/
structure Numeral where
  coefficient : Nat
  exponent : Int
  deriving DecidableEq, Repr

namespace Numeral

def code (numeral : Numeral) : Nat :=
  if 0 ≤ numeral.exponent then codeOfRatio (numeral.coefficient * tenTo numeral.exponent.toNat) 1
  else codeOfRatio numeral.coefficient (tenTo (-numeral.exponent).toNat)

def exact (code : Nat) : Numeral := ⟨unitsOfCode code * (tenTo 1074 / twoTo 1074), -1074⟩

end Numeral

/-- Which of two numerals is taken when the number lies in the middle between them. -/
inductive Tie where
  | larger
  | even
  deriving DecidableEq, Repr

namespace Shortest

def reaches (code : Nat) (exponent : Int) : Bool :=
  if 0 ≤ exponent then decide (tenTo exponent.toNat * twoTo 1074 ≤ unitsOfCode code)
  else decide (twoTo 1074 ≤ unitsOfCode code * tenTo (-exponent).toNat)

/-- The exponent of the first digit: the power of ten at or below the number. The logarithm in base
two leaves few candidates. -/
def leadingExponent (code : Nat) : Int :=
  let low := (((unitsOfCode code).log2 : Int) - 1075) * 30103 / 100000 - 1
  if reaches code (low + 3) then low + 3
  else if reaches code (low + 2) then low + 2
  else if reaches code (low + 1) then low + 1
  else low

/-- The better of the two neighbours of a number among the numerals with a given exponent, if any
of them reads back as the number. -/
def onGrid (tie : Tie) (code : Nat) (exponent : Int) : Option Numeral :=
  let num := if 0 ≤ exponent then unitsOfCode code
    else unitsOfCode code * tenTo (-exponent).toNat
  let den := if 0 ≤ exponent then twoTo 1074 * tenTo exponent.toNat else twoTo 1074
  let below : Numeral := ⟨num / den, exponent⟩
  let above : Numeral := ⟨num / den + 1, exponent⟩
  let excess := 2 * (num % den)
  let preferBelow := decide (excess < den) ||
    (decide (excess = den) && tie == .even && below.coefficient % 2 == 0)
  match below.code == code, above.code == code with
  | true, true => some (if preferBelow then below else above)
  | true, false => some below
  | false, true => some above
  | false, false => none

/-- The shortest numeral of a positive code. Seventeen digits always suffice, and the exact numeral
reads back in any case. -/
def numeral (tie : Tie) (code : Nat) : Numeral :=
  let first := leadingExponent code
  ((List.range 17).findSome? fun (more : Nat) => onGrid tie code (first - (more : Int))).getD
    (.exact code)

end Shortest

structure FloatLayout where
  tie : Tie
  /-- The range of the first digit's exponent in which no power of ten is written. -/
  positional : Int → Bool
  /-- Whether a whole number keeps a point and a zero. -/
  wholePoint : Bool

namespace FloatLayout

def significant (digits : List Char) : List Char :=
  (digits.reverse.dropWhile (· == '0')).reverse

/-- Digits with a point, where the first digit counts `10 ^ leading`. -/
def pointed (layout : FloatLayout) (digits : List Char) (leading : Int) : List Char :=
  let whole := if layout.wholePoint then ['.', '0'] else []
  if leading < 0 then ['0', '.'] ++ List.replicate (-leading - 1).toNat '0' ++ digits
  else
    let places := leading.toNat + 1
    if digits.length ≤ places then
      digits ++ List.replicate (places - digits.length) '0' ++ whole
    else digits.take places ++ '.' :: digits.drop places

def scientific (digits : List Char) (leading : Int) : List Char :=
  let mantissa := match digits with
    | d :: e :: rest => d :: '.' :: e :: rest
    | short => short
  mantissa ++ 'e' :: (if leading < 0 then '-' else '+') :: Text.digits leading.natAbs

def render (layout : FloatLayout) (x : Finite64) : List Char :=
  let sign := if x.negative then ['-'] else []
  if x.code.val = 0 then sign ++ layout.pointed ['0'] 0
  else
    let numeral := Shortest.numeral layout.tie x.code
    let all := Text.digits numeral.coefficient
    let leading := numeral.exponent + all.length - 1
    let digits := significant all
    sign ++ if layout.positional leading then layout.pointed digits leading
      else scientific digits leading

end FloatLayout

end Keyset
