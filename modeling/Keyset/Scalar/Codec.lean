import Keyset.Scalar
import Keyset.Text
import Keyset.Token

/-!
# Scalars in tokens

A scalar goes into a token as a JSON value: decimals, dates and times as texts, so that no number is
rounded on its way, and the other kinds as what they are.
-/
namespace Keyset

/-- The JSON value of a scalar. What is no finite number has no JSON number and becomes null. -/
def Scalar.toJson : Scalar → Json.Value
  | .null => .null
  | .bool b => .bool b
  | .int n => .integer n.toInt
  | .float (.finite x) => .number (.float x)
  | .float _ => .null
  | .decimal d => .string (String.ofList d.render)
  | .text s => .string s
  | .date d => .string (String.ofList d.render)
  | .datetime t => .string (String.ofList t.render)

namespace ScalarKind

def readInt64 (text : String) : Option Int64 := do
  let n ← Text.readInteger (Text.trim text.toList)
  (Json.Number.integer n).toInt64?

/-- The scalar of this kind that a JSON value stands for. Numbers become decimals by their text. -/
def ofJson? : ScalarKind → Json.Value → Option Scalar
  | _, .null => some .null
  | .boolean, .bool b => some (.bool b)
  | .integer, .number n => n.toInt64?.map .int
  | .integer, .string s => (readInt64 s).map .int
  | .float, .number n => some (.float n.toBinary64)
  | .decimal, .string s => (Fixed.read? (Text.trim s.toList)).map .decimal
  | .decimal, .number n => (Fixed.read? n.chars).map .decimal
  | .text, .string s => some (.text s)
  | .date, .string s => (Date.read? s.toList).map .date
  | .datetime, .string s => (Instant.read? s.toList).map .datetime
  | _, _ => none

def decode (kind : ScalarKind) (value : Json.Value) : Except TokenError Scalar :=
  match kind.ofJson? value with
  | some scalar => .ok scalar
  | none => .error (.badValue kind value)

end ScalarKind

end Keyset
