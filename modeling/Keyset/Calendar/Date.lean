import Keyset.Numeral
import Keyset.Text

/-! # Days of the proleptic Gregorian calendar -/
namespace Keyset

def isLeapYear (year : Int) : Bool :=
  year % 4 == 0 && (year % 100 != 0 || year % 400 == 0)

def monthLength (year : Int) (month : Nat) : Nat :=
  if month = 2 then if isLeapYear year then 29 else 28
  else if month = 4 ∨ month = 6 ∨ month = 9 ∨ month = 11 then 30
  else 31

/-- The years that the calendar reaches. -/
abbrev minYear : Int := -262143

abbrev maxYear : Int := 262142

abbrev IsDay (year : Int) (month day : Nat) : Prop :=
  minYear ≤ year ∧ year ≤ maxYear ∧ 1 ≤ month ∧ month ≤ 12 ∧
    1 ≤ day ∧ day ≤ monthLength year month

structure Date where
  year : Int
  month : Nat
  day : Nat
  isDay : IsDay year month day
  deriving DecidableEq, Repr

namespace Date

def of? (year : Int) (month day : Nat) : Option Date :=
  if h : IsDay year month day then some ⟨year, month, day, h⟩ else none

/-- A number that grows with the date. No month has more than 31 days. -/
def rank (d : Date) : Int := (d.year * 12 + d.month) * 31 + d.day

def next? (d : Date) : Option Date :=
  if d.day < monthLength d.year d.month then of? d.year d.month (d.day + 1)
  else if d.month < 12 then of? d.year (d.month + 1) 1
  else of? (d.year + 1) 1 1

def previous? (d : Date) : Option Date :=
  if 1 < d.day then of? d.year d.month (d.day - 1)
  else if 1 < d.month then of? d.year (d.month - 1) (monthLength d.year (d.month - 1))
  else of? (d.year - 1) 12 31

/-- A year in at least four digits, with a sign outside of 0 to 9999. -/
def renderYear (year : Int) : List Char :=
  let sign := if year < 0 then ['-'] else if 9999 < year then ['+'] else []
  sign ++ Text.paddedDigits 4 year.natAbs

def render (d : Date) : List Char :=
  renderYear d.year ++ '-' :: Text.paddedDigits 2 d.month ++ '-' :: Text.paddedDigits 2 d.day

/-! ## Reading -/

/-- A number of one to `width` digits, with white space before it allowed, and what follows it. -/
def readNumber (width : Nat) (text : List Char) : Option (Nat × List Char) :=
  let text := Text.dropBlank text
  let digits := (text.take width).takeWhile Char.isDigit
  (Text.readDigits digits).map fun n => (n, text.drop digits.length)

/-- A year: up to four digits, or a sign and any number of digits. -/
def readYear (text : List Char) : Option (Int × List Char) :=
  let signed (negative : Bool) (rest : List Char) : Option (Int × List Char) :=
    let (digits, rest) := Text.splitDigits rest
    (Text.readDigits digits).map fun n => (if negative then -(n : Int) else n, rest)
  match Text.dropBlank text with
  | '-' :: rest => signed true rest
  | '+' :: rest => signed false rest
  | rest => (readNumber 4 rest).map fun (n, rest) => ((n : Int), rest)

def expect (c : Char) : List Char → Option (List Char)
  | [] => none
  | d :: rest => if d = c then some rest else none

def readFront (text : List Char) : Option (Date × List Char) := do
  let (year, text) ← readYear text
  let text ← expect '-' text
  let (month, text) ← readNumber 2 text
  let text ← expect '-' text
  let (day, text) ← readNumber 2 text
  let date ← of? year month day
  return (date, text)

def read? (text : List Char) : Option Date :=
  match readFront text with
  | some (date, []) => some date
  | _ => none

end Date

end Keyset
