import Keyset.ConfigError

/-! # Dotted paths from a record to a scalar -/
namespace Keyset

def dotted (text : String) : List String := (text.toList.splitOn '.').map String.ofList

/-- A path: the names of the fields to follow, from the record outwards. -/
structure Path where
  segments : List String
  segments_ne : segments ≠ []
  deriving DecidableEq, Repr

namespace Path

theorem dotted_ne (text : String) : dotted text ≠ [] := by
  simp [dotted, List.splitOn_ne_nil]

def parse (text : String) : Except ConfigError Path :=
  if (dotted text).contains "" then .error (.malformedPath text)
  else .ok ⟨dotted text, dotted_ne text⟩

def text (path : Path) : String :=
  String.ofList (['.'].intercalate (path.segments.map String.toList))

def extend (path : Path) (segment : String) : Path where
  segments := path.segments ++ [segment]
  segments_ne := by simp

/-- Takes one part of a text for each segment, as long as they are equal, and then no part may be
left. -/
def takesParts : List String → List String → Bool
  | [], parts => parts.isEmpty
  | segment :: segments, parts => parts.head? == some segment && takesParts segments parts.tail

def spells (path : Path) (text : String) : Bool := takesParts path.segments (dotted text)

@[simp] theorem segments_extend (path : Path) (segment : String) :
    (path.extend segment).segments = path.segments ++ [segment] := rfl

end Path

end Keyset
