import Keyset.Yaml.Lexer

/-!
# Trees of YAML texts

A text is one tree of scalars, sequences and mappings. An alias stands for an anchored tree; it may
stand inside that tree, so aliases stay in the tree and anchored trees are kept beside it.

An anchor gets as its number how many names of anchors there are before it. When a name is declared
again, the next anchor can get the same number, and then takes over the aliases of the number.
-/
namespace Keyset.Yaml

/-- A tree. Tags are written out in full. -/
inductive Node where
  | scalar (style : Style) (tag : Option Tag) (text : String)
  | sequence (tag : Option Tag) (items : List Node)
  | mapping (tag : Option Tag) (entries : List (Node × Node))
  /-- The anchored tree of a number. -/
  | aliasOf (anchor : Nat)
  deriving Repr

def Node.empty : Node := .scalar .plain none ""

mutual

/-- How many parts a tree has: scalars, aliases, and the two ends of each collection. -/
def Node.size : Node → Nat
  | .scalar .. => 1
  | .sequence _ items => sizeOfItems items + 2
  | .mapping _ entries => sizeOfEntries entries + 2
  | .aliasOf _ => 1

def sizeOfItems : List Node → Nat
  | [] => 0
  | item :: items => item.size + sizeOfItems items

def sizeOfEntries : List (Node × Node) → Nat
  | [] => 0
  | (key, value) :: entries => key.size + value.size + sizeOfEntries entries

end

/-- A tree and the anchored trees in it by their numbers, the last first. -/
structure Tree where
  root : Node
  anchored : List (Nat × Node)
  deriving Repr

structure Reading where
  tokens : List Token
  /-- The short forms of tags. -/
  handles : List (String × Tag) := []
  /-- The names of anchors and their numbers. -/
  anchors : List (String × Nat) := []
  /-- The numbers and the trees of all anchors in their order. -/
  anchored : Array (Nat × Node) := #[]

/-- A reader of trees; failure is a text that is not YAML. -/
abbrev Reader := StateT Reading Option

namespace Reader

def peek : Reader (Option Token) := return (← get).tokens.head?

def skip : Reader Unit := modify fun reading => { reading with tokens := reading.tokens.tail }

def accept (token : Token) : Reader Bool := do
  let found := (← peek) == some token
  if found then skip
  return found

def sees (tokens : List Token) : Reader Bool := return (← peek).any tokens.contains

def expect (token : Token) : Reader Unit := do
  unless ← accept token do failure

/-! ## Properties of a tree -/

def commonHandles : List (String × Tag) :=
  [("!", octets ['!']), ("!!", octets "tag:yaml.org,2002:".toList)]

def fullTag (handle : String) (suffix : Tag) : Reader Tag := do
  if handle = "" then return suffix
  match ((← get).handles ++ commonHandles).lookup handle with
  | some expansion => return expansion ++ suffix
  | none => failure

def anchor? : Reader (Option String) := do
  match ← peek with
  | some (.anchor name) => skip; return some name
  | _ => return none

def tag? : Reader (Option (String × Tag)) := do
  match ← peek with
  | some (.tag handle suffix) => skip; return some (handle, suffix)
  | _ => return none

def properties : Reader (Option String × Option Tag) := do
  let early ← anchor?
  let short ← tag?
  let anchor ← if early.isSome then pure early else anchor?
  let tag ← short.mapM fun (handle, suffix) => fullTag handle suffix
  return (anchor, tag)

def declare (name : String) : Reader Nat := modifyGet fun reading =>
  let number := reading.anchors.length
  (reading.anchored.size, { reading with
    anchors := (name, number) :: reading.anchors.filter fun anchor => anchor.1 != name
    anchored := reading.anchored.push (number, .empty) })

def keep (place : Nat) (node : Node) : Reader Unit := modify fun reading =>
  { reading with anchored := reading.anchored.modify place fun slot => (slot.1, node) }

def resolveAlias (name : String) : Reader Node := do
  match (← get).anchors.lookup name with
  | some number => return .aliasOf number
  | none => failure

/-! ## Trees -/

mutual

/-- A tree. A block may start here if `block`, and a sequence that is not indented more than the key
before it if `flush`. -/
def node (block flush : Bool) : Nat → Reader Node
  | 0 => failure
  | fuel + 1 => do
    if let some (.aliasOf name) ← peek then
      skip
      resolveAlias name
    else
      let (anchor, tag) ← properties
      let place ← anchor.mapM declare
      let node ← content block flush (anchor.isSome || tag.isSome) tag fuel
      if let some place := place then keep place node
      return node

def content (block flush hasProperties : Bool) (tag : Option Tag) : Nat → Reader Node
  | 0 => failure
  | fuel + 1 => do
    match ← peek, block, flush with
    | some (.scalar style text), _, _ =>
      skip
      return .scalar style tag text
    | some .flowSequence, _, _ => skip; return .sequence tag (← flowItems true fuel)
    | some .flowMapping, _, _ => skip; return .mapping tag (← flowEntries true fuel)
    | some .blockSequence, true, _ => skip; return .sequence tag (← blockItems fuel)
    | some .blockMapping, true, _ => skip; return .mapping tag (← blockEntries fuel)
    | some .blockEntry, _, true => return .sequence tag (← flushItems fuel)
    | _, _, _ => if hasProperties then return .scalar .plain tag "" else failure

def nodeUnless (ends : List Token) (block flush : Bool) : Nat → Reader Node
  | 0 => failure
  | fuel + 1 => do if ← sees ends then return .empty else node block flush fuel

def blockItems : Nat → Reader (List Node)
  | 0 => failure
  | fuel + 1 => do
    if ← accept .blockEntry then
      let item ← nodeUnless [.blockEntry, .blockEnd] true false fuel
      return item :: (← blockItems fuel)
    else
      expect .blockEnd
      return []

/-- The items of a sequence that is not indented, which ends with the hyphens. -/
def flushItems : Nat → Reader (List Node)
  | 0 => failure
  | fuel + 1 => do
    if ← accept .blockEntry then
      let item ← nodeUnless [.blockEntry, .key, .value, .blockEnd] true false fuel
      return item :: (← flushItems fuel)
    else return []

def blockEntries : Nat → Reader (List (Node × Node))
  | 0 => failure
  | fuel + 1 => do
    if ← accept .key then
      let ends : List Token := [.key, .value, .blockEnd]
      let key ← nodeUnless ends true true fuel
      let value ← if ← accept .value then nodeUnless ends true true fuel else pure .empty
      return (key, value) :: (← blockEntries fuel)
    else
      expect .blockEnd
      return []

/-- The items of a sequence in brackets. An item with a key is a mapping of one entry. -/
def flowItems (first : Bool) : Nat → Reader (List Node)
  | 0 => failure
  | fuel + 1 => do
    if ← accept .flowSequenceEnd then return []
    unless first do expect .flowEntry
    if ← accept .flowSequenceEnd then return []
    let item ← if ← accept .key then
        return .mapping none [← flowPair fuel] :: (← flowItems false fuel)
      else node false false fuel
    return item :: (← flowItems false fuel)

/-- The key and the value of an item. When the key is empty, the mark after it goes with it. -/
def flowPair : Nat → Reader (Node × Node)
  | 0 => failure
  | fuel + 1 => do
    let key ← if ← sees [.value, .flowEntry, .flowSequenceEnd] then do skip; pure Node.empty
      else node false false fuel
    let value ← if ← accept .value then
        nodeUnless [.flowEntry, .flowSequenceEnd] false false fuel
      else pure .empty
    return (key, value)

def flowEntries (first : Bool) : Nat → Reader (List (Node × Node))
  | 0 => failure
  | fuel + 1 => do
    if ← accept .flowMappingEnd then return []
    unless first do expect .flowEntry
    if ← accept .flowMappingEnd then return []
    let entry ← if ← accept .key then do
        let key ← nodeUnless [.value, .flowEntry, .flowMappingEnd] false false fuel
        let value ← if ← accept .value then
            nodeUnless [.flowEntry, .flowMappingEnd] false false fuel
          else pure .empty
        pure (key, value)
      else do pure (← node false false fuel, Node.empty)
    return entry :: (← flowEntries false fuel)

end

/-! ## Documents -/

/-- The directives in front of a document: one version at most, and each short form once. -/
def directives (versioned : Bool) : Nat → Reader Unit
  | 0 => failure
  | fuel + 1 => do
    match ← peek with
    | some (.version major minor) =>
      if versioned || major != 1 || (minor != 1 && minor != 2) then failure
      skip
      directives true fuel
    | some (.tagHandle handle expansion) =>
      let reading ← get
      if (reading.handles.lookup handle).isSome then failure
      set { reading with handles := (handle, expansion) :: reading.handles }
      skip
      directives versioned fuel
    | _ => return ()

def opensDocument : Token → Bool
  | .version .. => true
  | .tagHandle .. => true
  | .documentStart => true
  | _ => false

def endsDocument (token : Token) : Bool := opensDocument token || token == .documentEnd

def document (fuel : Nat) : Reader Node := do
  match ← peek with
  | none => return .empty
  | some token =>
    if opensDocument token then
      directives false fuel
      expect .documentStart
      if (← peek).all endsDocument then return .empty else node true false fuel
    else node true false fuel

end Reader

/-- The tree of a text with a single document. No chain of readers is longer than four times the
count of tokens. -/
def Tree.ofText? (text : String) : Option Tree := do
  let tokens ← Token.ofText? text
  let (root, reading) ← (Reader.document (4 * tokens.length + 8)).run { tokens := tokens }
  if reading.tokens.all (· == .documentEnd) then return ⟨root, reading.anchored.toList.reverse⟩
  else none

end Keyset.Yaml
