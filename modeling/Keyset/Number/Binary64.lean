import Keyset.Numeral

/-!
# Double-precision numbers

A number other than NaN is a sign and a code: the 63 low bits of its standard representation. Codes
grow with the magnitude they stand for, so two numbers compare as their signed codes do.
-/
namespace Keyset

/-- The code of infinity, one more than the largest code of a finite number. -/
abbrev infinityCode : Nat := 0x7ff0000000000000

structure Finite64 where
  negative : Bool
  code : Fin infinityCode
  deriving DecidableEq, Repr

inductive Binary64 where
  | nan
  | infinite (negative : Bool)
  | finite (x : Finite64)
  deriving DecidableEq, Repr

/-- The magnitude of a code as a multiple of the smallest positive number, 2 to the power -1074. -/
def unitsOfCode (code : Nat) : Nat :=
  if code < twoTo 52 then code else (twoTo 52 + code % twoTo 52) * twoTo (code / twoTo 52 - 1)

/-- The code nearest to a fraction, the even one of two that are equally near. The result reaches
`infinityCode` when the fraction is too large. -/
def codeOfRatio (num den : Nat) : Nat :=
  let scaled := num * twoTo 1074
  let units := scaled / den
  let shift := units.log2 - 52
  let below := shift * twoTo 52 + units / twoTo shift
  let excess := 2 * (scaled - units / twoTo shift * twoTo shift * den)
  let gap := twoTo shift * den
  if excess < gap ∨ (excess = gap ∧ below % 2 = 0) then below else below + 1

namespace Finite64

/-- The code with its sign, which orders the finite numbers. -/
def rank (x : Finite64) : Int := if x.negative then -(x.code : Int) else x.code

end Finite64

namespace Binary64

def ofRatio (negative : Bool) (num den : Nat) : Binary64 :=
  let code := codeOfRatio num den
  if h : code < infinityCode then .finite ⟨negative, code, h⟩ else .infinite negative

def ofInt (n : Int) : Binary64 := ofRatio (n < 0) n.natAbs 1

/-- The number nearest to `coefficient * 10 ^ exponent`. Magnitudes beyond 10 to the power 400, or
below its inverse, are told from the count of digits alone. -/
def ofDecimal (negative : Bool) (coefficient : Nat) (exponent : Int) : Binary64 :=
  let top := exponent + (Nat.toDigits 10 coefficient).length
  if coefficient = 0 ∨ top < -400 then ofRatio negative 0 1
  else if 400 < top then .infinite negative
  else if 0 ≤ exponent then ofRatio negative (coefficient * tenTo exponent.toNat) 1
  else ofRatio negative coefficient (tenTo (-exponent).toNat)

def rank? : Binary64 → Option Int
  | .nan => none
  | .infinite negative => some (if negative then -infinityCode else infinityCode)
  | .finite x => some x.rank

/-- The order of two numbers; NaN has none, and the two zeros are equal. -/
def compare? (x y : Binary64) : Option Ordering :=
  match x.rank?, y.rank? with
  | some a, some b => some (compare a b)
  | _, _ => none

def same (x y : Binary64) : Bool := x.compare? y == some .eq

@[simp] theorem compare?_nan_left (y : Binary64) : nan.compare? y = none := rfl

@[simp] theorem compare?_nan_right (x : Binary64) : x.compare? nan = none := by
  cases x <;> rfl

end Binary64

end Keyset
