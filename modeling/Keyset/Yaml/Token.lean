import Keyset.Json.Reader
import Keyset.Numeral
import Keyset.Yaml.Source

/-!
# The tokens of YAML texts

Anchors, tags and directives are read here, and all other tokens by the lexer.
-/
namespace Keyset.Yaml

inductive Style where
  | plain
  | literal
  /-- Folded, or between quotes. -/
  | other
  deriving DecidableEq, Repr

/-- A tag, or a part of one, in octets. They are mostly those of a text, but need not be. -/
abbrev Tag := List UInt8

/-- A piece of a text that has a meaning of its own. Blocks are collections by indentation, flows
are collections in brackets. -/
inductive Token where
  | version (major minor : Nat)
  /-- A short form of tags and what it stands for. -/
  | tagHandle (handle : String) (expansion : Tag)
  | documentStart
  | documentEnd
  | blockSequence
  | blockMapping
  | blockEnd
  | flowSequence
  | flowSequenceEnd
  | flowMapping
  | flowMappingEnd
  | blockEntry
  | flowEntry
  | key
  | value
  | aliasOf (anchor : String)
  | anchor (name : String)
  | tag (handle : String) (suffix : Tag)
  | scalar (style : Style) (text : String)
  deriving DecidableEq, Repr

/-! ## Anchors -/

def endsAnchor (c : Char) : Bool :=
  isWordEnd c || ['?', ':', ',', ']', '\x7d', '%', '@', '\x60'].contains c

def readAnchor? (source : Source) : Option (String × Source) :=
  let (name, rest) := source.span isNameChar
  if name.isEmpty || !endsAnchor rest.char then none else some (String.ofList name, rest)

/-! ## Tags -/

/-- Whether the character may be in a tag; in a tag between angle brackets there are more. -/
def isTagChar (bracketed : Bool) (c : Char) : Bool :=
  isNameChar c || [';', '/', '?', ':', '@', '&', '=', '+', '$', '.', '!', '~', '*', '\'', '(',
    ')'].contains c || (bracketed && (c == ',' || c == '[' || c == ']'))

def readOctet? : Source → Option (UInt8 × Source)
  | l₀ :: l₁ :: l₂ :: rest => do
    if l₀.char = '%' then
      let high ← Json.hexDigit? l₁.char
      let low ← Json.hexDigit? l₂.char
      return (UInt8.ofNat (high * 16 + low), rest)
    else none
  | _ => none

def followers? (octet : UInt8) : Option Nat :=
  if octet < 0x80 then some 0
  else if 0xc0 ≤ octet ∧ octet < 0xe0 then some 1
  else if 0xe0 ≤ octet ∧ octet < 0xf0 then some 2
  else if 0xf0 ≤ octet ∧ octet < 0xf8 then some 3
  else none

def readFollowers? : Nat → Source → Option (List UInt8 × Source)
  | 0, source => some ([], source)
  | count + 1, source => do
    let (octet, rest) ← readOctet? source
    if 0x80 ≤ octet ∧ octet < 0xc0 then
      let (octets, rest) ← readFollowers? count rest
      return (octet :: octets, rest)
    else none

/-- Reads octets that look like a character; whether there is such a character does not count. -/
def readEscaped? (source : Source) : Option (List UInt8 × Source) := do
  let (octet, rest) ← readOctet? source
  let (octets, rest) ← readFollowers? (← followers? octet) rest
  return (octet :: octets, rest)

def octets (cs : List Char) : List UInt8 := cs.flatMap String.utf8EncodeChar

def readTagOctets? (bracketed : Bool) : Nat → Source → Option (List UInt8 × Source)
  | 0, source => some ([], source)
  | fuel + 1, source =>
    if source.char = '%' then do
      let (first, rest) ← readEscaped? source
      let (others, rest) ← readTagOctets? bracketed fuel rest
      return (first ++ others, rest)
    else match source with
      | [] => some ([], [])
      | letter :: rest =>
        if isTagChar bracketed letter.char then do
          let (others, rest) ← readTagOctets? bracketed fuel rest
          return (octets [letter.char] ++ others, rest)
        else some ([], letter :: rest)

/-- The octets that count as a tag: those before a zero. -/
def Tag.ofOctets (octets : List UInt8) : Tag := octets.takeWhile (· != 0)

def readTagText? (bracketed : Bool) (source : Source) : Option (Tag × Source) := do
  let (octets, rest) ← readTagOctets? bracketed source.length source
  if octets.isEmpty then none else return (Tag.ofOctets octets, rest)

/-- Reads the mark that starts a tag and the name after it, with a second mark if there is one. -/
def readHandle? : Source → Option (List Char × Source)
  | [] => none
  | letter :: rest =>
    if letter.char ≠ '!' then none
    else
      let (name, rest) := Source.span rest isNameChar
      if rest.char = '!' then some ('!' :: (name ++ ['!']), rest.tail) else some ('!' :: name, rest)

def readBracketedTag? (source : Source) : Option (Token × Source) := do
  let (tag, rest) ← readTagText? true source
  if rest.char = '>' then return (.tag "" tag, rest.tail) else none

/-- Reads a tag in its short form. What is no handle belongs to the tag; a mark alone is a tag. -/
def readShortTag? (source : Source) : Option (Token × Source) := do
  let (handle, rest) ← readHandle? source
  if 1 < handle.length && handle.getLast? == some '!' then
    let (tag, rest) ← readTagText? false rest
    return (.tag (String.ofList handle) tag, rest)
  else
    let (others, rest) ← readTagOctets? false rest.length rest
    match Tag.ofOctets (octets handle.tail ++ others) with
    | [] => return (.tag "" (octets ['!']), rest)
    | tag => return (.tag "!" tag, rest)

/-- Reads a tag. After it a word ends, or an entry of a flow. -/
def readTag? (inFlow : Bool) (source : Source) : Option (Token × Source) := do
  let (tag, rest) ← if Source.char source.tail = '<' then readBracketedTag? (source.drop 2)
    else readShortTag? source
  if isWordEnd rest.char || (inFlow && rest.char == ',') then return (tag, rest) else none

/-! ## Directives -/

def readVersionNumber? (source : Source) : Option (Nat × Source) := do
  let (digits, rest) := source.span Char.isDigit
  if 9 < digits.length then none else return (← Text.readDigits digits, rest)

def readVersion? (source : Source) : Option (Token × Source) := do
  let (major, rest) ← readVersionNumber? source.dropBlanks
  if rest.char = '.' then
    let (minor, rest) ← readVersionNumber? rest.tail
    return (.version major minor, rest)
  else none

def readTagHandle? (source : Source) : Option (Token × Source) := do
  let (handle, rest) ← readHandle? source.dropBlanks
  if (handle.length = 1 ∨ handle.getLast? = some '!') ∧ isBlank rest.char then
    let (expansion, rest) ← readTagText? true rest.dropBlanks
    if isWordEnd rest.char then return (.tagHandle (String.ofList handle) expansion, rest)
    else none
  else none

def readDirective? (source : Source) : Option (Token × Source) := do
  let (name, rest) := source.span isNameChar
  if isWordEnd rest.char then
    let (token, rest) ← if name = ['Y', 'A', 'M', 'L'] then readVersion? rest
      else if name = ['T', 'A', 'G'] then readTagHandle? rest
      else none
    return (token, ← rest.dropComment?)
  else none

end Keyset.Yaml
