import Keyset.Number.Fixed
import Keyset.Number.Shortest
import Keyset.Calendar.Instant
import Keyset.Scalar.Kind
import Keyset.Text

/-!
# Scalars

A scalar is what a record has at the path of a sort key. Scalars of one kind are ordered, the null
scalar is below all others, and numbers of different kinds compare where neither is rounded to a
decimal.
-/
namespace Keyset

inductive Scalar where
  | null
  | bool (b : Bool)
  | int (n : Int64)
  | float (x : Binary64)
  | decimal (d : Fixed)
  | text (s : String)
  | date (d : Date)
  | datetime (t : Instant)
  deriving DecidableEq, Repr

namespace Scalar

def isNull : Scalar → Bool
  | .null => true
  | _ => false

/-- The order of two scalars, if they are comparable. An integer meets a double-precision number as
the nearest such number, and a decimal exactly. -/
def compare? : Scalar → Scalar → Option Ordering
  | .null, .null => some .eq
  | .null, _ => some .lt
  | _, .null => some .gt
  | .bool a, .bool b => some (compare a b)
  | .int a, .int b => some (compare a.toInt b.toInt)
  | .float a, .float b => a.compare? b
  | .int a, .float b => (Binary64.ofInt a.toInt).compare? b
  | .float a, .int b => a.compare? (.ofInt b.toInt)
  | .decimal a, .decimal b => some (a.compare b)
  | .decimal a, .int b => some (a.compare (.ofInt64 b))
  | .int a, .decimal b => some ((Fixed.ofInt64 a).compare b)
  | .text a, .text b => some (compare a b)
  | .date a, .date b => some (compare a.rank b.rank)
  | .datetime a, .datetime b => some (compare a.rank b.rank)
  | _, _ => none

/-- Whether a scalar is null or of a kind. NaN, which has no order, is of no kind here. Two scalars
of one kind are comparable. -/
def fits (kind : ScalarKind) : Scalar → Bool
  | .null => true
  | .bool _ => kind == .boolean
  | .int _ => kind == .integer
  | .float .nan => false
  | .float _ => kind == .float
  | .decimal _ => kind == .decimal
  | .text _ => kind == .text
  | .date _ => kind == .date
  | .datetime _ => kind == .datetime

/-- Whether two scalars are of one kind and equal. NaN is equal to nothing, the two zeros of double
precision are equal, and the places of a decimal do not count. -/
def same : Scalar → Scalar → Bool
  | .null, .null => true
  | .bool a, .bool b => a == b
  | .int a, .int b => a == b
  | .float a, .float b => a.same b
  | .decimal a, .decimal b => a.compare b == .eq
  | .text a, .text b => a == b
  | .date a, .date b => a == b
  | .datetime a, .datetime b => a == b
  | _, _ => false

/-- Double-precision numbers for people: all digits, no power of ten, and a point only before a
fraction; the larger of two digits that are equally near is taken. -/
def floatLayout : FloatLayout where
  tie := .larger
  positional := fun _ => true
  wholePoint := false

def display : Scalar → String
  | .null => "NULL"
  | .bool b => if b then "true" else "false"
  | .int n => String.ofList (Text.integerDigits n.toInt)
  | .float .nan => "NaN"
  | .float (.infinite negative) => if negative then "-inf" else "inf"
  | .float (.finite x) => String.ofList (floatLayout.render x)
  | .decimal d => String.ofList d.render
  | .text s => Text.quote s
  | .date d => String.ofList d.render
  | .datetime t => String.ofList t.render

end Scalar

end Keyset
