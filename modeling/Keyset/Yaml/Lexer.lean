import Keyset.Yaml.Scalar.Block
import Keyset.Yaml.Scalar.Flow
import Keyset.Yaml.Token

/-!
# From letters to tokens

Most keys are recognised only by the colon after them. So the lexer remembers, for each collection
in brackets and for the block around them, where a key may have started, and inserts tokens there
when the colon comes. Such a key stands on one line and has at most 1024 bytes.
-/
namespace Keyset.Yaml

/-- A place where a key may have started. -/
structure KeyStart where
  letter : Letter
  /-- How many tokens come before it. -/
  position : Nat
  /-- A colon has to follow, since a block goes on with a key here. -/
  required : Bool
  deriving Repr

structure Lexer where
  tokens : Array Token := #[]
  /-- The columns of the open blocks, the innermost first. -/
  blocks : List Nat := []
  key : Option KeyStart := none
  /-- For each open flow, where a key may have started around it, the innermost first. -/
  outer : List (Option KeyStart) := []
  /-- Whether a key may start at the next token. -/
  keyAllowed : Bool := true
  deriving Repr

namespace Lexer

def inFlow (lexer : Lexer) : Bool := !lexer.outer.isEmpty

def emit (lexer : Lexer) (token : Token) : Lexer :=
  { lexer with tokens := lexer.tokens.push token }

/-- Whether a key could only be meant if its colon came sooner. -/
def isStale (start : KeyStart) (now : Letter) : Bool :=
  decide (start.letter.line < now.line) || decide (start.letter.offset + 1024 < now.offset)

/-- Forgets a stale key. One that was required is an error. -/
def freshen (now : Letter) : Option KeyStart → Option (Option KeyStart)
  | none => some none
  | some start =>
    if isStale start now then if start.required then none else some none else some (some start)

def dropStale? (lexer : Lexer) (now : Letter) : Option Lexer := do
  let key ← freshen now lexer.key
  let outer ← lexer.outer.mapM (freshen now)
  return { lexer with key := key, outer := outer }

def dropKey? (lexer : Lexer) : Option Lexer :=
  match lexer.key with
  | some start => if start.required then none else some { lexer with key := none }
  | none => some lexer

def saveKey? (lexer : Lexer) (letter : Letter) : Option Lexer :=
  if lexer.keyAllowed then do
    let required := !lexer.inFlow && lexer.blocks.head? == some letter.column
    let lexer ← lexer.dropKey?
    return { lexer with key := some ⟨letter, lexer.tokens.size, required⟩ }
  else some lexer

/-- Closes the blocks that do not include a column, or all without a column. -/
def closeBlocks (lexer : Lexer) (column : Option Nat) : Lexer :=
  if lexer.inFlow then lexer
  else
    let isOver (block : Nat) := column.all fun c => c < block
    let closed := lexer.blocks.takeWhile isOver
    { lexer with
      tokens := lexer.tokens ++ Array.replicate closed.length Token.blockEnd
      blocks := lexer.blocks.dropWhile isOver }

/-- Opens a block at a column that is deeper than all open blocks, with its token at a position. -/
def openBlock (lexer : Lexer) (column position : Nat) (token : Token) : Lexer :=
  if lexer.inFlow || !lexer.blocks.head?.all (· < column) then lexer
  else
    { lexer with
      tokens := lexer.tokens.insertIdxIfInBounds position token
      blocks := column :: lexer.blocks }

/-! ## The marks of collections -/

def openFlow? (lexer : Lexer) (letter : Letter) (token : Token) : Option Lexer := do
  let lexer ← lexer.saveKey? letter
  let lexer := { lexer with outer := lexer.key :: lexer.outer, key := none, keyAllowed := true }
  return lexer.emit token

def closeFlow? (lexer : Lexer) (token : Token) : Option Lexer := do
  let lexer ← lexer.dropKey?
  let lexer := match lexer.outer with
    | [] => lexer
    | key :: outer => { lexer with key := key, outer := outer }
  return { lexer with keyAllowed := false }.emit token

def flowEntry? (lexer : Lexer) : Option Lexer := do
  let lexer ← lexer.dropKey?
  return { lexer with keyAllowed := true }.emit .flowEntry

/-- A mark that opens a block at its column unless there is one. Keys have to be allowed there. -/
def blockMark? (lexer : Lexer) (letter : Letter) (block : Token) : Option Lexer :=
  if lexer.inFlow then some lexer
  else if lexer.keyAllowed then some (lexer.openBlock letter.column lexer.tokens.size block)
  else none

def blockEntry? (lexer : Lexer) (letter : Letter) : Option Lexer := do
  let lexer ← lexer.blockMark? letter .blockSequence
  let lexer ← lexer.dropKey?
  return { lexer with keyAllowed := true }.emit .blockEntry

def explicitKey? (lexer : Lexer) (letter : Letter) : Option Lexer := do
  let lexer ← lexer.blockMark? letter .blockMapping
  let lexer ← lexer.dropKey?
  return { lexer with keyAllowed := !lexer.inFlow }.emit .key

/-- A colon before a value. The key that may have started becomes one. -/
def value? (lexer : Lexer) (letter : Letter) : Option Lexer :=
  match lexer.key with
  | some start =>
    let keyed := { lexer with
      tokens := lexer.tokens.insertIdxIfInBounds start.position Token.key
      key := none
      keyAllowed := false }
    some ((keyed.openBlock start.letter.column start.position .blockMapping).emit .value)
  | none => do
    let lexer ← lexer.blockMark? letter .blockMapping
    return { lexer with keyAllowed := !lexer.inFlow }.emit .value

/-! ## Scalars and what comes before them -/

def keyToken? (lexer : Lexer) (letter : Letter) (read : Option (Token × Source)) :
    Option (Lexer × Source) := do
  let lexer ← lexer.saveKey? letter
  let (token, rest) ← read
  return ({ lexer with keyAllowed := false }.emit token, rest)

def quoted? (lexer : Lexer) (letter : Letter) (quote : Quote) (rest : Source) :
    Option (Lexer × Source) :=
  lexer.keyToken? letter ((quote.read? rest).map fun (text, rest) => (.scalar .other text, rest))

/-- A plain scalar. When it is followed by a line end, a key may start after it. -/
def plain? (lexer : Lexer) (letter : Letter) (source : Source) : Option (Lexer × Source) := do
  let lexer ← lexer.saveKey? letter
  let indent := (lexer.blocks.head?.map (· + 1)).getD 0
  let read ← PlainPlace.read ⟨lexer.inFlow, indent⟩ [] source
  let token := Token.scalar .plain (foldText read.pieces)
  return ({ lexer with keyAllowed := read.brokeLine }.emit token, read.rest)

def block? (lexer : Lexer) (folded : Bool) (rest : Source) : Option (Lexer × Source) := do
  let lexer ← lexer.dropKey?
  let (text, rest) ← readBlock? folded lexer.blocks.head? rest
  let style := if folded then Style.other else Style.literal
  return ({ lexer with keyAllowed := true }.emit (.scalar style text), rest)

/-! ## Documents -/

def documentToken? (lexer : Lexer) (read : Option (Token × Source)) :
    Option (Lexer × Source) := do
  let lexer ← (lexer.closeBlocks none).dropKey?
  let (token, rest) ← read
  return ({ lexer with keyAllowed := false }.emit token, rest)

/-! ## All tokens -/

def startsPlain (lexer : Lexer) (c next : Char) : Bool :=
  let isMark := ['-', '?', ':', ',', '[', ']', '\x7b', '\x7d', '#', '&', '*', '!', '|', '>', '\'',
    '"', '%', '@', '\x60'].contains c
  (!isWordEnd c && !isMark) || (c == '-' && !isBlank next) ||
    (!lexer.inFlow && (c == '?' || c == ':') && !isWordEnd next)

def token? (lexer : Lexer) (letter : Letter) (rest : Source) : Option (Lexer × Source) :=
  let c := letter.char
  let next := Source.char rest
  let marksWord := isWordEnd next
  let marked (lexer : Option Lexer) : Option (Lexer × Source) := lexer.map fun l => (l, rest)
  if c = '[' then marked (lexer.openFlow? letter .flowSequence)
  else if c = '\x7b' then marked (lexer.openFlow? letter .flowMapping)
  else if c = ']' then marked (lexer.closeFlow? .flowSequenceEnd)
  else if c = '\x7d' then marked (lexer.closeFlow? .flowMappingEnd)
  else if c = ',' then marked lexer.flowEntry?
  else if c = '-' ∧ marksWord then marked (lexer.blockEntry? letter)
  else if c = '?' ∧ (lexer.inFlow ∨ marksWord) then marked (lexer.explicitKey? letter)
  else if c = ':' ∧ (lexer.inFlow ∨ marksWord) then marked (lexer.value? letter)
  else if c = '*' then
    lexer.keyToken? letter ((readAnchor? rest).map fun (name, rest) => (.aliasOf name, rest))
  else if c = '&' then
    lexer.keyToken? letter ((readAnchor? rest).map fun (name, rest) => (.anchor name, rest))
  else if c = '!' then lexer.keyToken? letter (readTag? lexer.inFlow (letter :: rest))
  else if c = '|' ∧ !lexer.inFlow then lexer.block? false rest
  else if c = '>' ∧ !lexer.inFlow then lexer.block? true rest
  else if c = '\'' then lexer.quoted? letter .single rest
  else if c = '"' then lexer.quoted? letter .double rest
  else if lexer.startsPlain c next then lexer.plain? letter (letter :: rest)
  else none

/-- Goes to the next token, past blanks, comments and line ends. Where a key may start in a block,
tabs do not count as blanks. A mark of the byte order may start each line. -/
def skip (lexer : Lexer) (inComment : Bool) : Source → Lexer × Source
  | [] => (lexer, [])
  | letter :: rest =>
    let c := letter.char
    let isByteOrderMark := letter.column == 0 && c.toNat == 0xfeff
    let isSkipped := c == ' ' || (c == '\t' && (lexer.inFlow || !lexer.keyAllowed))
    if isBreak c then
      skip { lexer with keyAllowed := lexer.keyAllowed || !lexer.inFlow } false rest
    else if inComment || isByteOrderMark || isSkipped then skip lexer inComment rest
    else if c == '#' then skip lexer true rest
    else (lexer, letter :: rest)
termination_by structural source => source

def next? (lexer : Lexer) (source : Source) : Option (Lexer × Source) :=
  match source with
  | [] => none
  | letter :: rest => do
    let lexer ← lexer.dropStale? letter
    let lexer := lexer.closeBlocks (some letter.column)
    if letter.column = 0 ∧ letter.char = '%' then lexer.documentToken? (readDirective? rest)
    else if let some rest := source.marker? '-' then
      lexer.documentToken? (some (.documentStart, rest))
    else if let some rest := source.marker? '.' then
      lexer.documentToken? (some (.documentEnd, rest))
    else lexer.token? letter rest

/-- Reads all tokens. Each takes a letter, so the length of the source is fuel enough. -/
def run? : Nat → Lexer → Source → Option Lexer
  | 0, _, _ => none
  | fuel + 1, lexer, source => do
    let (lexer, source) := lexer.skip false source
    if source.isEmpty then (lexer.closeBlocks none).dropKey?
    else
      let (lexer, source) ← lexer.next? source
      run? fuel lexer source

end Lexer

def Token.ofText? (text : String) : Option (List Token) := do
  let source ← Source.ofText? text
  let lexer ← Lexer.run? (source.length + 1) {} source
  return lexer.tokens.toList

end Keyset.Yaml
