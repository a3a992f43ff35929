import Keyset.Json.Reader

/-!
# Records in JSON

A record has named members in a fixed order. It is written as an object, in which members of other
names are passed over, or as an array of the members from the first on.
-/
namespace Keyset.Json

def positional {α : Type} (names : List String) (items : List α) : Option (List (String × α)) :=
  if items.length ≤ names.length then some (names.zip items) else none

/-- The members of a record, from a value. Those of other names are kept. -/
def Value.record? (names : List String) : Value → Option (List (String × Value))
  | .object members => some members
  | .array items => positional names items
  | _ => none

/-! ## Passing over what does not count -/

def skipString (text : List Char) : Option (List Char) := (readPieces text).map (·.2)

def skipName (text : List Char) : Option (List Char) :=
  match skipBlank text with
  | '"' :: rest => do
    match skipBlank (← skipString rest) with
    | ':' :: rest => return rest
    | _ => none
  | _ => none

mutual

/-- Passes over a value of any depth. Its numbers may be too large, and its surrogates unpaired. -/
def skipValue : Nat → List Char → Option (List Char)
  | 0, _ => none
  | fuel + 1, text => match skipBlank text with
    | 'n' :: 'u' :: 'l' :: 'l' :: rest => some rest
    | 't' :: 'r' :: 'u' :: 'e' :: rest => some rest
    | 'f' :: 'a' :: 'l' :: 's' :: 'e' :: rest => some rest
    | '"' :: rest => skipString rest
    | '[' :: rest => match skipBlank rest with
      | ']' :: rest => some rest
      | rest => skipItems fuel rest
    | '\x7b' :: rest => match skipBlank rest with
      | '\x7d' :: rest => some rest
      | rest => skipMembers fuel rest
    | text => (readSpelling text).map (·.2)

def skipItems : Nat → List Char → Option (List Char)
  | 0, _ => none
  | fuel + 1, text => do
    match skipBlank (← skipValue fuel text) with
    | ',' :: rest => skipItems fuel rest
    | ']' :: rest => return rest
    | _ => none

def skipMembers : Nat → List Char → Option (List Char)
  | 0, _ => none
  | fuel + 1, text => do
    match skipBlank (← skipValue fuel (← skipName text)) with
    | ',' :: rest => skipMembers fuel rest
    | '\x7d' :: rest => return rest
    | _ => none

end

/-! ## Reading a record from its text -/

/-- Reads the members of an object up to its brace and keeps those of the given names, each of which
may come once. -/
def readKnown (names : List String) (depth : Nat) :
    Nat → List Char → Option (List (String × Value) × List Char)
  | 0, _ => none
  | fuel + 1, text => do
    let (name, rest) ← readName text
    let (found, rest) ← if names.contains name then do
        let (value, rest) ← readValue depth fuel rest
        pure ([(name, value)], rest)
      else do
        pure ([], ← skipValue fuel rest)
    match skipBlank rest with
    | ',' :: rest =>
      let (members, rest) ← readKnown names depth fuel rest
      if found.any fun m => members.any fun other => other.1 == m.1 then none
      else return (found ++ members, rest)
    | '\x7d' :: rest => return (found, rest)
    | _ => none

def readRecord (names : List String) (text : String) : Option (List (String × Value)) :=
  let text := text.toList
  let fuel := fuelFor text
  match skipBlank text, depthLimit with
  | '\x7b' :: rest, depth + 1 => match skipBlank rest with
    | '\x7d' :: rest => atEnd ([], rest)
    | rest => (readKnown names depth fuel rest).bind atEnd
  | '[' :: _, depth => do
    match ← (readValue depth fuel text).bind atEnd with
    | .array items => positional names items
    | _ => none
  | _, _ => none

end Keyset.Json
