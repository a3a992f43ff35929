/-!
# The letters of YAML texts

A letter is a character with its place. All line ends but two are the same letter `\n`; the line and
paragraph separators of Unicode keep what they are. At the end of a text stands the null character,
which no text may have.
-/
namespace Keyset.Yaml

/-- A character and where it stands; lines and columns are counted from zero. -/
structure Letter where
  char : Char
  line : Nat
  column : Nat
  /-- How many bytes come before it in the text. -/
  offset : Nat
  deriving DecidableEq, Repr

abbrev Source := List Letter

/-! ## Classes of characters -/

def isAllowed (c : Char) : Bool :=
  c == '\t' || c == '\n' || c == '\r' || c.toNat == 0x85 ||
    (0x20 ≤ c.toNat && c.toNat ≤ 0x7e) || (0xa0 ≤ c.toNat && c.toNat ≤ 0xfffd) ||
    0x10000 ≤ c.toNat

def isBlank (c : Char) : Bool := c == ' ' || c == '\t'

def isBreak (c : Char) : Bool := c == '\n' || c.toNat == 0x2028 || c.toNat == 0x2029

def isLineEnd (c : Char) : Bool := isBreak c || c == '\x00'

def isWordEnd (c : Char) : Bool := isBlank c || isLineEnd c

def isNameChar (c : Char) : Bool := c.isAlphanum || c == '-' || c == '_'

/-- Whether the character ends an entry of a collection in brackets, or starts or ends one. -/
def isFlowMark (c : Char) : Bool :=
  c == ',' || c == '[' || c == ']' || c == '\x7b' || c == '\x7d'

/-! ## Places -/

def place (line column offset : Nat) : List Char → Source
  | [] => []
  | '\r' :: '\n' :: rest => ⟨'\n', line, column, offset⟩ :: place (line + 1) 0 (offset + 2) rest
  | c :: rest =>
    let next := offset + c.utf8Size
    let c := if c = '\r' ∨ c.toNat = 0x85 then '\n' else c
    if isBreak c then ⟨c, line, column, offset⟩ :: place (line + 1) 0 next rest
    else ⟨c, line, column, offset⟩ :: place line (column + 1) next rest
termination_by structural text => text

namespace Source

def ofText? (text : String) : Option Source :=
  if text.toList.all isAllowed then some (place 0 0 0 text.toList) else none

def char : Source → Char
  | [] => '\x00'
  | letter :: _ => letter.char

def span (source : Source) (test : Char → Bool) : List Char × Source :=
  ((source.takeWhile fun letter => test letter.char).map Letter.char,
    source.dropWhile fun letter => test letter.char)

def dropBlanks (source : Source) : Source := source.dropWhile fun letter => isBlank letter.char

def dropComment? (source : Source) : Option Source :=
  let source := source.dropBlanks
  let source := if source.char = '#' then source.dropWhile fun l => !isLineEnd l.char else source
  match source with
  | [] => some []
  | letter :: rest => if isBreak letter.char then some rest else none

/-- What follows a line that starts with a word of three equal characters. -/
def marker? (c : Char) : Source → Option Source
  | l₁ :: l₂ :: l₃ :: rest =>
    if l₁.column = 0 ∧ l₁.char = c ∧ l₂.char = c ∧ l₃.char = c ∧ isWordEnd (char rest) then
      some rest
    else none
  | _ => none

def atMarker (source : Source) : Bool := (source.marker? '-').isSome || (source.marker? '.').isSome

end Source

end Keyset.Yaml
