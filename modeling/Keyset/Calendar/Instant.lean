import Keyset.Calendar.Date
import Keyset.Numeral

/-!
# Instants of universal time, to the nanosecond

A leap second is the last second of a minute gone on for a second billion of nanoseconds. It is
written as second 60 and comes before the next minute. Other seconds can be made to go on as well,
by setting the nanoseconds of an instant. They would be written as the second after them and would
not come back from this text, and they are left out.
-/
namespace Keyset

abbrev daySeconds : Nat := 86400

abbrev billion : Nat := 1000000000

abbrev IsTime (second nanos : Nat) : Prop :=
  second < daySeconds ∧ nanos < 2 * billion ∧ (nanos < billion ∨ second % 60 = 59)

/-- An instant: a day, the second of the day and the nanoseconds since that second began. -/
structure Instant where
  date : Date
  second : Nat
  nanos : Nat
  isTime : IsTime second nanos
  deriving DecidableEq, Repr

namespace Instant

def of? (date : Date) (second nanos : Nat) : Option Instant :=
  if h : IsTime second nanos then some ⟨date, second, nanos, h⟩ else none

def rank (t : Instant) : Int :=
  (t.date.rank * daySeconds + t.second) * (2 * billion) + t.nanos

def render (t : Instant) : List Char :=
  let leap := t.nanos / billion
  t.date.render ++
    'T' :: Text.paddedDigits 2 (t.second / 3600) ++
    ':' :: Text.paddedDigits 2 (t.second / 60 % 60) ++
    ':' :: Text.paddedDigits 2 (t.second % 60 + leap) ++
    '.' :: Text.paddedDigits 9 (t.nanos % billion) ++ ['Z']

/-! ## Reading -/

/-- The instant at a time of day; second 60 is a leap second of any minute. -/
def atTime (date : Date) (hour minute second nanos : Nat) : Option Instant :=
  if 23 < hour ∨ 59 < minute ∨ 60 < second then none
  else if second = 60 then of? date (hour * 3600 + minute * 60 + 59) (billion + nanos)
  else of? date (hour * 3600 + minute * 60 + second) nanos

def readFixed (width : Nat) (text : List Char) : Option (Nat × List Char) :=
  let digits := text.take width
  if digits.length = width then
    (Text.readDigits digits).map fun n => (n, text.drop width)
  else none

def readNanos : List Char → Option (Nat × List Char)
  | '.' :: text => readFixed 9 text
  | text => some (0, text)

/-- An optional point with digits, as nanoseconds. Digits after the ninth are dropped. -/
def readFraction : List Char → Option (Nat × List Char)
  | '.' :: text =>
    let (digits, rest) := Text.splitDigits text
    let kept := digits.take 9
    (Text.readDigits kept).map fun n => (n * tenTo (9 - kept.length), rest)
  | text => some (0, text)

/-- Reads a date and a time of universal time: the parts may be as short as in dates, and a year may
have a sign, but a fraction has all its nine places. -/
def readUniversal (text : List Char) : Option Instant := do
  let (date, text) ← Date.readFront text
  let text ← Date.expect 'T' text
  let (hour, text) ← Date.readNumber 2 text
  let text ← Date.expect ':' text
  let (minute, text) ← Date.readNumber 2 text
  let text ← Date.expect ':' text
  let (second, text) ← Date.readNumber 2 text
  let (nanos, text) ← readNanos text
  let text ← Date.expect 'Z' text
  if text.isEmpty then atTime date hour minute second nanos else none

def readOffsetMinutes (text : List Char) : Option Int := do
  let (hours, text) ← readFixed 2 text
  let text ← Date.expect ':' text
  let (minutes, text) ← readFixed 2 text
  if hours ≤ 23 ∧ minutes ≤ 59 ∧ text = [] then some (hours * 60 + minutes) else none

/-- How far a clock is ahead of universal time, in minutes. The sign of a clock behind may be the
mathematical minus sign. -/
def readOffset : List Char → Option Int
  | ['Z'] => some 0
  | ['z'] => some 0
  | '+' :: text => readOffsetMinutes text
  | '-' :: text => (readOffsetMinutes text).map (- ·)
  | '\u2212' :: text => (readOffsetMinutes text).map (- ·)
  | _ => none

/-- The same instant for a clock that is `minutes` behind, for less than a day. -/
def behind (t : Instant) (minutes : Int) : Option Instant :=
  let second := (t.second : Int) - minutes * 60
  if second < 0 then do of? (← t.date.previous?) (second + daySeconds).toNat t.nanos
  else if daySeconds ≤ second then do of? (← t.date.next?) (second - daySeconds).toNat t.nanos
  else of? t.date second.toNat t.nanos

def readWithOffset (text : List Char) : Option Instant := do
  let (year, text) ← readFixed 4 text
  let text ← Date.expect '-' text
  let (month, text) ← readFixed 2 text
  let text ← Date.expect '-' text
  let (day, text) ← readFixed 2 text
  let text ← ((Date.expect 'T' text).or (Date.expect 't' text)).or (Date.expect ' ' text)
  let (hour, text) ← readFixed 2 text
  let text ← Date.expect ':' text
  let (minute, text) ← readFixed 2 text
  let text ← Date.expect ':' text
  let (second, text) ← readFixed 2 text
  let (nanos, text) ← readFraction text
  let offset ← readOffset text
  let date ← Date.of? year month day
  (← atTime date hour minute second nanos).behind offset

def read? (text : List Char) : Option Instant :=
  (readUniversal text).or (readWithOffset text)

end Instant

end Keyset
