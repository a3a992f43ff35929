import Keyset.Yaml.Node
import Keyset.Yaml.Resolve

/-!
# YAML trees as documents

A scalar is a text however it is written, but a flag or a number only without quotes. Where nothing
is written, a list or a record is empty. Records are mappings only. A visit of a tree may follow a
limited number of aliases, since trees that are short to write can be endless to visit.
-/
namespace Keyset.Yaml

def commonTag (name : String) : Tag := octets ("tag:yaml.org,2002:" ++ name).toList

/-- Whether a scalar is open to be a flag or a number: it has no quotes, or it is literal and has
the tag that says so. -/
def isOpen (name : String) (style : Style) (tag : Option Tag) : Bool :=
  style == .plain || (style == .literal && tag == some (commonTag name))

def real? (text : String) : Option Plain := if isReal text then some .number else none

/-- Whether a tag is of the document's own making: a mark, and then a text, which may be empty. -/
def isLocalTag : Tag → Bool
  | [] => false
  | mark :: name => octets ['!'] == [mark] && (String.fromUTF8? ⟨name.toArray⟩).isSome

/-- A scalar by itself. A local tag has no meaning, and what only starts like one is no tag. -/
def resolveScalar (style : Style) (tag : Option Tag) (text : String) : Option Plain :=
  let untagged := if style = .plain then resolve text else some (.text text)
  match tag with
  | none => untagged
  | some tag =>
    if tag = commonTag "bool" then (flag? text).map .flag
    else if tag = commonTag "int" then (integer? text.toList).bind id
    else if tag = commonTag "float" then real? text
    else if tag = commonTag "null" then if nullNames.contains text then some .null else none
    else if isLocalTag tag then none
    else if (octets ['!']).isPrefixOf tag then untagged
    else some (.text text)

def hasLocalTag (tag : Option Tag) : Bool := tag.any isLocalTag

def Node.isBlank : Node → Bool
  | .scalar .plain _ "" => true
  | _ => false

/-- What is read from a tree while a number of aliases may still be followed. -/
abbrev Visit := StateT Nat Option

namespace Tree

def inside (tree : Tree) (node : Node) : Tree := { tree with root := node }

def follow (tree : Tree) (anchor : Nat) : Visit Node := do
  match ← get with
  | 0 => failure
  | left + 1 =>
    set left
    (tree.anchored.lookup anchor).getM

def node (tree : Tree) : Visit Node :=
  match tree.root with
  | .aliasOf anchor => tree.follow anchor
  | node => pure node

def text? (tree : Tree) : Visit String := do
  match ← tree.node with
  | .scalar _ _ text => return text
  | _ => failure

def flag? (tree : Tree) : Visit Bool := do
  match ← tree.node with
  | .scalar style tag text => if isOpen "bool" style tag then (Yaml.flag? text).getM else failure
  | _ => failure

def natural? (tree : Tree) : Visit Nat := do
  match ← tree.node with
  | .scalar style tag text =>
    if isOpen "int" style tag then
      ((Yaml.natural? text.toList).filter (· < twoTo 64)).getM
    else failure
  | _ => failure

def items? (tree : Tree) : Visit (List Tree) := do
  match ← tree.node with
  | .sequence _ items => return items.map tree.inside
  | node => if node.isBlank then return [] else failure

def members? (tree : Tree) : Visit (List (String × Tree)) := do
  match ← tree.node with
  | .mapping _ entries => entries.mapM fun (key, value) => do
    return (← (tree.inside key).text?, tree.inside value)
  | node => if node.isBlank then return [] else failure

def plainTo (depth : Nat) (tree : Tree) : Visit Plain := do
  match ← tree.node, depth with
  | .scalar style tag text, _ => (resolveScalar style tag text).getM
  | .sequence tag items, depth + 1 =>
    if hasLocalTag tag then failure
    return .sequence (← items.mapM fun item => plainTo depth (tree.inside item))
  | .mapping tag entries, depth + 1 =>
    if hasLocalTag tag then failure
    return .mapping (← entries.mapM fun (key, value) => do
      return (← plainTo depth (tree.inside key), ← plainTo depth (tree.inside value)))
  | _, _ => failure

/-- The levels of the members of a field; the field itself is five levels down of 128. -/
def depthLimit : Nat := 123

/-- How many aliases may be followed: a hundred for each part of the tree. -/
def aliasLimit (tree : Tree) : Nat := 100 * tree.root.size

end Tree

instance : Document Tree Visit where
  text? := Tree.text?
  flag? := Tree.flag?
  natural? := Tree.natural?
  items? := Tree.items?
  members? := Tree.members?
  record? _ := Tree.members?
  plain? := Tree.plainTo Tree.depthLimit

end Keyset.Yaml
