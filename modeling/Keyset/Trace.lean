import Keyset.Scalar
import Keyset.Token

/-! # What pagination reports while it works -/
namespace Keyset

inductive Event where
  | firstPage (key : String) (size : Nat)
  | page (kind : PageKind) (key : String) (offset size : Nat) (hasNext : Bool)
  /-- The records of a scalar were counted, or the count was remembered. -/
  | duplicates (value : Scalar) (count : Nat) (remembered : Bool)
  /-- There are fewer records of a scalar than offsets speak of. -/
  | shortRun (key : String) (value : Scalar) (total consumed : Nat)

namespace Event

def level : Event → String
  | .firstPage .. => "DEBUG"
  | .page .. => "DEBUG"
  | .duplicates .. => "TRACE"
  | .shortRun .. => "WARN"

def message : Event → String
  | .firstPage .. => "Fetched first page"
  | .page .. => "Fetched page"
  | .duplicates _ _ false => "Duplicate count"
  | .duplicates _ _ true => "Duplicate count (cached)"
  | .shortRun .. =>
    "Duplicate run is shorter than the offsets pointing into it; the collection changed"

def fields : Event → List (String × String)
  | .firstPage key size => [("key", key), ("size", toString size)]
  | .page kind key offset size hasNext =>
    [("kind", kind.name), ("key", key), ("offset", toString offset), ("size", toString size),
      ("has_next", toString hasNext)]
  | .duplicates value count _ => [("value", value.display), ("count", toString count)]
  | .shortRun key value total consumed =>
    [("key", key), ("value", value.display), ("total", toString total),
      ("consumed", toString consumed)]

end Event

end Keyset
