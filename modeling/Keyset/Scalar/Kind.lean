/-! # The kinds of scalars that a field can hold -/
namespace Keyset

/-- What the scalars of a field are, nulls apart. -/
inductive ScalarKind where
  | boolean
  | integer
  | float
  | decimal
  | text
  | date
  | datetime
  deriving DecidableEq, Repr

namespace ScalarKind

def name : ScalarKind → String
  | .boolean => "boolean"
  | .integer => "integer"
  | .float => "float"
  | .decimal => "decimal"
  | .text => "text"
  | .date => "date"
  | .datetime => "datetime"

def all : List ScalarKind := [.boolean, .integer, .float, .decimal, .text, .date, .datetime]

/-- The kind of a name; the last kind has a second spelling. -/
def ofName? (name : String) : Option ScalarKind :=
  if name = "date_time" then some .datetime else all.find? fun kind => kind.name == name

theorem ofName?_name (kind : ScalarKind) : ofName? kind.name = some kind := by
  cases kind <;> decide

end ScalarKind

end Keyset
