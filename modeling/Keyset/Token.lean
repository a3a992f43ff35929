import Keyset.Json.Record
import Keyset.Json.Writer
import Keyset.Scalar.Kind
import Keyset.Text

/-!
# Page tokens

A token is all that a client keeps between two pages. It names a page by a scalar at its boundary
and by how many records of that scalar lie before the page, on the side from which the page is
counted.
-/
namespace Keyset

inductive TokenError where
  /-- It is not JSON, not a record, or one of its texts is none. -/
  | malformed
  /-- It does not say which kind of page it names. -/
  | badKind
  | offsetNotInteger
  | offsetNegative
  | missingKey
  /-- It was made for another key. -/
  | otherKey (given expected : String)
  | missingValue
  /-- Its value does not fit the kind of the key. -/
  | badValue (kind : ScalarKind) (value : Json.Value)

namespace TokenError

def detail : TokenError → String
  | .malformed => "Malformed token"
  | .badKind => "Invalid or missing \"type\""
  | .offsetNotInteger => "Invalid \"offset\" (not integer)"
  | .offsetNegative => "Invalid \"offset\" (negative)"
  | .missingKey => "Missing \"key\""
  | .otherKey given expected =>
    "Invalid \"key\" \"" ++ given ++ "\" (paginator key is \"" ++ expected ++ "\")"
  | .missingValue => "Missing \"value\""
  | .badValue kind value =>
    "Invalid \"value\" for a " ++ kind.name ++ " key: " ++ value.text

def message (e : TokenError) : String := "Invalid page token: " ++ e.detail

end TokenError

inductive PageKind where
  /-- The first records. -/
  | first
  /-- The last records. -/
  | last
  /-- The records from a boundary on. -/
  | forward
  /-- The records just before a boundary. -/
  | backward
  deriving DecidableEq, Repr

namespace PageKind

def name : PageKind → String
  | .first => "first"
  | .last => "last"
  | .forward => "forward"
  | .backward => "backward"

def all : List PageKind := [.first, .last, .forward, .backward]

def ofName? (name : String) : Option PageKind := all.find? fun kind => kind.name == name

def parse (name : String) : Except TokenError PageKind :=
  match ofName? name with
  | some kind => .ok kind
  | none => .error .badKind

theorem ofName?_name (kind : PageKind) : ofName? kind.name = some kind := by
  cases kind <;> decide

end PageKind

/-- A token. Its value may be a null, which is not the same as no value. -/
structure Token where
  kind : PageKind
  key : Option String
  value : Option Json.Value
  offset : Nat

namespace Token

def first : Token := ⟨.first, none, none, 0⟩

def last (key : String) : Token := ⟨.last, some key, none, 0⟩

def forward (key : String) (value : Json.Value) (offset : Nat) : Token :=
  ⟨.forward, some key, some value, offset⟩

def backward (key : String) (value : Json.Value) (offset : Nat) : Token :=
  ⟨.backward, some key, some value, offset⟩

/-- Whether two tokens are equal, in the sense of equal JSON values. -/
def same (s t : Token) : Bool :=
  s.kind == t.kind && s.key == t.key && s.offset == t.offset &&
    match s.value, t.value with
    | none, none => true
    | some a, some b => a.same b
    | _, _ => false

/-! ## Writing -/

def optionalMember (name : String) : Option Json.Value → List (String × Json.Value)
  | none => []
  | some value => [(name, value)]

def offsetValue (offset : Nat) : Option Json.Value :=
  if offset = 0 then none else some (.integer offset)

def toJson (token : Token) : Json.Value :=
  .object <|
    optionalMember "key" (token.key.map .string) ++
    optionalMember "offset" (offsetValue token.offset) ++
    ("type", .string token.kind.name) ::
    optionalMember "value" token.value

def encode (token : Token) : String := token.toJson.text

/-! ## Reading -/

def memberNames : List String := ["type", "key", "value", "offset"]

/-- The members of a token, not yet looked at. -/
structure Wire where
  kind : Option String
  key : Option String
  value : Option Json.Value
  offset : Option Json.Value

namespace Wire

def optionalText : Option Json.Value → Option (Option String)
  | none => some none
  | some .null => some none
  | some (.string s) => some (some s)
  | some _ => none

def ofMembers (members : List (String × Json.Value)) : Option Wire := do
  let member (name : String) := (members.find? fun m => m.1 == name).map (·.2)
  let kind ← optionalText (member "type")
  let key ← optionalText (member "key")
  return ⟨kind, key, member "value", member "offset"⟩

/-- An integer of 64 bits, as a number or as a text. -/
def readOffsetInt : Json.Value → Option Int64
  | .number n => n.toInt64?
  | .string s => do
    let n ← Text.readInteger (Text.trim s.toList)
    (Json.Number.integer n).toInt64?
  | _ => none

def readOffset : Option Json.Value → Except TokenError Nat
  | none => .ok 0
  | some .null => .ok 0
  | some value => match readOffsetInt value with
    | none => .error .offsetNotInteger
    | some n => if n.toInt < 0 then .error .offsetNegative else .ok n.toInt.toNat

/-- The token with the given members. The kind is looked at before the offset. -/
def token (wire : Wire) : Except TokenError Token := do
  let kind ← match wire.kind with
    | some name => PageKind.parse name
    | none => .error .badKind
  let offset ← readOffset wire.offset
  return ⟨kind, wire.key, wire.value, offset⟩

def members (token : Token) : List (String × Json.Value) :=
  ("type", .string token.kind.name) ::
    optionalMember "key" (token.key.map .string) ++
    optionalMember "value" token.value ++
    optionalMember "offset" (offsetValue token.offset)

end Wire

def serialize (token : Token) : String := Json.recordText (Wire.members token)

def ofMembers (members : Option (List (String × Json.Value))) : Except TokenError Token :=
  match members.bind Wire.ofMembers with
  | some wire => wire.token
  | none => .error .malformed

def ofJson (value : Json.Value) : Except TokenError Token :=
  ofMembers (value.record? memberNames)

def decode (text : String) : Except TokenError Token :=
  match Json.read? Json.depthLimit text with
  | some value => ofJson value
  | none => .error .malformed

/-- Reads a token from a text in which each member may come once, and members of other names do not
count. -/
def deserialize (text : String) : Except TokenError Token :=
  ofMembers (Json.readRecord memberNames text)

end Token

end Keyset
