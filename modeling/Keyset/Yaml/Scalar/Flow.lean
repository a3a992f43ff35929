import Keyset.Json.Reader
import Keyset.Yaml.Source

/-!
# Flow scalars

Inside a scalar of several lines a single line end counts as a space, and of several line ends the
first does not count. Blanks around line ends never count.
-/
namespace Keyset.Yaml

/-! ## Folded lines -/

inductive Piece where
  | char (c : Char)
  /-- A blank or a line end that stands for itself. -/
  | space (c : Char)
  /-- A line end that was escaped, so that the two lines join. -/
  | joint
  deriving Repr

/-- The space between two characters. -/
inductive Gap where
  | blanks (cs : List Char)
  | lines (first : Char) (more : List Char)
  /-- Two lines that join, with the line ends between them. -/
  | joint (ends : List Char)
  deriving Repr

namespace Gap

/-- The gap with one more blank or line end. -/
def push (gap : Gap) (c : Char) : Gap :=
  match gap, isBreak c with
  | .blanks cs, false => .blanks (cs ++ [c])
  | .blanks _, true => .lines c []
  | .lines first more, true => .lines first (more ++ [c])
  | .joint ends, true => .joint (ends ++ [c])
  | gap, false => gap

def text : Gap → List Char
  | .blanks cs => cs
  | .lines '\n' [] => [' ']
  | .lines '\n' more => more
  | .lines first more => first :: more
  | .joint ends => ends

end Gap

def foldPieces (gap : Gap) : List Piece → List Char
  | [] => gap.text
  | .char c :: rest => gap.text ++ c :: foldPieces (.blanks []) rest
  | .space c :: rest => foldPieces (gap.push c) rest
  | .joint :: rest => gap.text ++ foldPieces (.joint []) rest

def foldText (pieces : List Piece) : String := String.ofList (foldPieces (.blanks []) pieces)

/-!
## Plain scalars

A plain scalar goes on as long as its lines are indented enough, until a comment, a colon before a
blank, or the end of an entry.
-/

structure PlainPlace where
  /-- Inside brackets or braces. -/
  inFlow : Bool
  /-- The first column at which further lines may start. -/
  indent : Nat

structure PlainRead where
  /-- The pieces up to the last character. -/
  pieces : List Piece
  /-- A line ended after the last character. -/
  brokeLine : Bool
  rest : Source

namespace PlainPlace

def endsAt (place : PlainPlace) (c next : Char) : Bool :=
  (c == ':' && isWordEnd next) || (place.inFlow && isFlowMark c)

/-- Whether a colon at this character could be meant in two ways. -/
def isUnclear (place : PlainPlace) (c next : Char) : Bool :=
  place.inFlow && c == ':' && (next == '?' || isFlowMark next)

def endsAfterGap (place : PlainPlace) (source : Source) (column : Nat) : Bool :=
  (!place.inFlow && decide (column < place.indent)) || source.atMarker || source.char == '#'

/-- Reads on after some blanks and line ends, of which the last comes first. -/
def read (place : PlainPlace) (gap : List Char) : Source → Option PlainRead
  | [] => some ⟨[], gap.any isBreak, []⟩
  | letter :: rest =>
    let c := letter.char
    let source := letter :: rest
    let stopped : PlainRead := ⟨[], gap.any isBreak, source⟩
    if isBlank c || isBreak c then
      if c == '\t' && gap.any isBreak && decide (letter.column < place.indent) then none
      else read place (c :: gap) rest
    else if !gap.isEmpty && place.endsAfterGap source letter.column then some stopped
    else if place.isUnclear c (Source.char rest) then none
    else if place.endsAt c (Source.char rest) then some stopped
    else do
      let more ← read place [] rest
      return { more with pieces := gap.reverse.map Piece.space ++ .char c :: more.pieces }
termination_by structural source => source

end PlainPlace

/-!
## Quoted scalars

Between single quotes only the quote itself is special and written twice. Between double quotes a
backslash escapes characters and line ends.
-/

inductive Quote where
  | single
  | double
  deriving DecidableEq, Repr

def Quote.char : Quote → Char
  | .single => '\''
  | .double => '"'

/-- Reads up to the closing quote. No document may start or end in between. -/
def Quote.body? (quote : Quote) : Source → Option (List Char × Source)
  | [] => none
  | letter :: rest =>
    if Source.atMarker (letter :: rest) then none
    else match quote, letter.char, rest with
      | .single, '\'', next :: more =>
        if next.char = '\'' then
          (body? .single more).map fun (cs, rest) => ('\'' :: '\'' :: cs, rest)
        else some ([], next :: more)
      | .single, '\'', [] => some ([], [])
      | .double, '"', rest => some ([], rest)
      | .double, '\\', next :: more =>
        (body? .double more).map fun (cs, rest) => ('\\' :: next.char :: cs, rest)
      | quote, c, rest => (body? quote rest).map fun (cs, rest) => (c :: cs, rest)
termination_by structural source => source

def Piece.ofChar (c : Char) : Piece := if isBlank c || isBreak c then .space c else .char c

def singlePieces : List Char → List Piece
  | [] => []
  | '\'' :: '\'' :: rest => .char '\'' :: singlePieces rest
  | c :: rest => .ofChar c :: singlePieces rest
termination_by structural text => text

/-- The characters that letters and signs after a backslash stand for. -/
def escapes : List (Char × Char) :=
  [('0', '\x00'), ('a', '\x07'), ('b', '\x08'), ('t', '\t'), ('\t', '\t'), ('n', '\n'),
    ('v', '\x0b'), ('f', '\x0c'), ('r', '\r'), ('e', '\x1b'), (' ', ' '), ('"', '"'), ('/', '/'),
    ('\\', '\\'), ('N', '\u0085'), ('_', '\u00a0'), ('L', '\u2028'), ('P', '\u2029')]

def hexChar? (digits : List Char) : Option Char := do
  let values ← digits.mapM Json.hexDigit?
  let n := values.foldl (fun n digit => n * 16 + digit) 0
  if h : n.isValidChar then some (Char.ofNatAux n h) else none

def doublePieces : List Char → Option (List Piece)
  | [] => some []
  | '\\' :: 'x' :: a :: b :: rest => do
    let c ← hexChar? [a, b]
    return .char c :: (← doublePieces rest)
  | '\\' :: 'u' :: a :: b :: c :: d :: rest => do
    let c ← hexChar? [a, b, c, d]
    return .char c :: (← doublePieces rest)
  | '\\' :: 'U' :: a :: b :: c :: d :: e :: f :: g :: h :: rest => do
    let c ← hexChar? [a, b, c, d, e, f, g, h]
    return .char c :: (← doublePieces rest)
  | '\\' :: c :: rest =>
    if isBreak c then do return .joint :: (← doublePieces rest)
    else do
      let c ← escapes.lookup c
      return .char c :: (← doublePieces rest)
  | c :: rest => do return .ofChar c :: (← doublePieces rest)
termination_by structural text => text

def Quote.read? (quote : Quote) (source : Source) : Option (String × Source) := do
  let (body, rest) ← quote.body? source
  let pieces ← match quote with
    | .single => some (singlePieces body)
    | .double => doublePieces body
  return (foldText pieces, rest)

end Keyset.Yaml
