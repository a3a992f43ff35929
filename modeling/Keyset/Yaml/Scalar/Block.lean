import Keyset.Yaml.Source

/-!
# Block scalars

A block scalar is the lines below its header that are indented as its first line is, or as the
header says. A literal one keeps all line ends, a folded one joins lines that do not start with a
blank.
-/
namespace Keyset.Yaml

inductive Chomping where
  | strip
  | clip
  | keep
  deriving DecidableEq, Repr

structure BlockHeader where
  chomping : Chomping := .clip
  /-- How much deeper than its surroundings the scalar is indented, if that is said. -/
  increment : Option Nat := none
  deriving DecidableEq, Repr

namespace BlockHeader

def chomping? (c : Char) : Option Chomping :=
  if c = '+' then some .keep else if c = '-' then some .strip else none

def increment? (source : Source) : Option (Option Nat × Source) :=
  match source with
  | [] => some (none, [])
  | letter :: rest =>
    if letter.char.isDigit then
      if letter.char = '0' then none else some (some (letter.char.toNat - '0'.toNat), rest)
    else some (none, letter :: rest)

def read? (source : Source) : Option (BlockHeader × Source) := do
  let (header, rest) ← match chomping? source.char with
    | some chomping => do
      let (increment, rest) ← increment? source.tail
      pure (⟨chomping, increment⟩, rest)
    | none => do
      let (increment, rest) ← increment? source
      match increment, chomping? rest.char with
      | some _, some chomping => pure (⟨chomping, increment⟩, rest.tail)
      | _, _ => pure (⟨.clip, increment⟩, rest)
  return (header, ← rest.dropComment?)

end BlockHeader

structure BlankLines where
  /-- The line ends. -/
  ends : List Char
  /-- The greatest column that was reached. -/
  deepest : Nat
  rest : Source

/-- Reads empty lines and the indentation after them, up to a column if there is one. A tab may not
be part of the indentation. -/
def BlankLines.read? (indent : Option Nat) (deepest : Nat) : Source → Option BlankLines
  | [] => some ⟨[], deepest, []⟩
  | letter :: rest =>
    let deepest := max deepest letter.column
    let inIndent := indent.all fun column => letter.column < column
    if inIndent && letter.char == ' ' then read? indent deepest rest
    else if inIndent && letter.char == '\t' then none
    else if isBreak letter.char then do
      let more ← read? indent deepest rest
      return { more with ends := letter.char :: more.ends }
    else some ⟨[], deepest, letter :: rest⟩
termination_by structural source => source

structure BlockLine where
  text : List Char
  /-- The end of the line; none at the end of the source. -/
  lineEnd : List Char
  /-- The ends of the empty lines after it. -/
  blankEnds : List Char

/-- Whether the line starts with a blank, so that it is not joined with others. -/
def BlockLine.startsBlank (line : BlockLine) : Bool := (line.text.head?.map isBlank).getD false

/-- Reads the lines that start at a column. Every line takes a letter, so the length of the source
is fuel enough. -/
def readBlockLines (indent : Nat) : Nat → Source → Option (List BlockLine × Source)
  | 0, source => some ([], source)
  | _, [] => some ([], [])
  | fuel + 1, letter :: rest =>
    if letter.column ≠ indent then some ([], letter :: rest)
    else do
      let (text, after) := Source.span (letter :: rest) fun c => !isLineEnd c
      let blank ← BlankLines.read? (some indent) 0 after.tail
      let (lines, rest) ← readBlockLines indent fuel blank.rest
      return (⟨text, (after.take 1).map Letter.char, blank.ends⟩ :: lines, rest)

def joinLines (folded : Bool) (line next : BlockLine) : List Char :=
  if folded && line.lineEnd == ['\n'] && !line.startsBlank && !next.startsBlank then
    if line.blankEnds.isEmpty then [' '] else line.blankEnds
  else line.lineEnd ++ line.blankEnds

def Chomping.tail (chomping : Chomping) (line : BlockLine) : List Char :=
  match chomping with
  | .strip => []
  | .clip => line.lineEnd
  | .keep => line.lineEnd ++ line.blankEnds

def blockText (folded : Bool) (chomping : Chomping) : List BlockLine → List Char
  | [] => []
  | [line] => line.text ++ chomping.tail line
  | line :: next :: rest =>
    line.text ++ joinLines folded line next ++ blockText folded chomping (next :: rest)

/-- Reads a block scalar after its sign, given the column of its surroundings. -/
def readBlock? (folded : Bool) (surrounding : Option Nat) (source : Source) :
    Option (String × Source) := do
  let (header, rest) ← BlockHeader.read? source
  let given := header.increment.map fun n => surrounding.getD 0 + n
  let blank ← BlankLines.read? given 0 rest
  let least := max 1 ((surrounding.map (· + 1)).getD 0)
  let indent := given.getD (max blank.deepest least)
  let (lines, rest) ← readBlockLines indent (blank.rest.length + 1) blank.rest
  let text := match lines with
    | [] => if header.chomping = .keep then blank.ends else []
    | lines => blank.ends ++ blockText folded header.chomping lines
  return (String.ofList text, rest)

end Keyset.Yaml
