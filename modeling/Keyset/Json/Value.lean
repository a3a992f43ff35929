import Keyset.Number.Binary64

/-!
# JSON values

Numbers are of two kinds: integers of 64 bits, signed or unsigned, and double-precision numbers.
Objects list their members in increasing order of names, one member a name.
-/
namespace Keyset.Json

/-- A number. Its integers are at least -2^63 and less than 2^64. -/
inductive Number where
  | integer (n : Int)
  | float (x : Finite64)
  deriving DecidableEq, Repr

inductive Value where
  | null
  | bool (b : Bool)
  | number (n : Number)
  | string (s : String)
  | array (items : List Value)
  | object (members : List (String × Value))
  deriving Repr

namespace Number

def same : Number → Number → Bool
  | .integer m, .integer n => m == n
  | .float x, .float y => x.rank == y.rank
  | _, _ => false

def toInt64? : Number → Option Int64
  | .integer n =>
    if -0x8000000000000000 ≤ n ∧ n < 0x8000000000000000 then some (.ofInt n) else none
  | .float _ => none

def toBinary64 : Number → Binary64
  | .integer n => .ofInt n
  | .float x => .finite x

end Number

mutual

/-- Whether two values are equal, where the two zeros of double precision are one. -/
def Value.same : Value → Value → Bool
  | .null, .null => true
  | .bool a, .bool b => a == b
  | .number m, .number n => m.same n
  | .string s, .string t => s == t
  | .array xs, .array ys => sameItems xs ys
  | .object xs, .object ys => sameMembers xs ys
  | _, _ => false

def sameItems : List Value → List Value → Bool
  | [], [] => true
  | x :: xs, y :: ys => x.same y && sameItems xs ys
  | _, _ => false

def sameMembers : List (String × Value) → List (String × Value) → Bool
  | [], [] => true
  | (k, x) :: xs, (l, y) :: ys => k == l && x.same y && sameMembers xs ys
  | _, _ => false

end

def insertMember (name : String) (value : Value) :
    List (String × Value) → List (String × Value)
  | [] => [(name, value)]
  | (other, old) :: rest =>
    if name < other then (name, value) :: (other, old) :: rest
    else if name = other then (name, value) :: rest
    else (other, old) :: insertMember name value rest

namespace Value

/-- The object with the given members; of two with one name the last counts. -/
def ofMembers (members : List (String × Value)) : Value :=
  .object (members.foldl (fun sorted (name, value) => insertMember name value sorted) [])

def integer (n : Int) : Value := .number (.integer n)

def member? (name : String) : Value → Option Value
  | .object members => (members.find? fun m => m.1 == name).map (·.2)
  | _ => none

end Value

end Keyset.Json
