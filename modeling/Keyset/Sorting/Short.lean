/-!
# Sorting short lists

A list is sorted by a test whether one element is less than another one. What the test does besides
answering, it does in a monad, so here and in the other modules on sorting the elements are tested
in a fixed order. Elements of which neither is less keep their order.

The lengths from which on a list is sorted in another way are those for elements that take more than
16 bytes.
-/
namespace Keyset.Sorting

/-- The answers of a test are found not to belong to any order, so a sort breaks off. -/
structure Disorder where
  deriving DecidableEq, Repr

variable {α : Type} {m : Type → Type} [Monad m]

/-! ## Insertion -/

/-- Puts an element into a list that is sorted from the last element to the first, after the
elements that it is less than. -/
def insertFromEnd (less : α → α → m Bool) (a : α) : List α → m (List α)
  | [] => return [a]
  | b :: rest => do
    if ← less a b then return b :: (← insertFromEnd less a rest) else return a :: b :: rest

def insertAll (less : α → α → m Bool) (sorted xs : List α) : m (List α) := do
  let backwards ← xs.foldlM (fun backwards a => insertFromEnd less a backwards) sorted.reverse
  return backwards.reverse

def insertion (less : α → α → m Bool) (xs : List α) : m (List α) := insertAll less [] xs

/-! ## Merging -/

/-- The first elements of two sorted lists taken together, as many as are asked for, and what is
left of the two lists. -/
def takeMerged (less : α → α → m Bool) : Nat → List α → List α → m (List α × List α × List α)
  | 0, left, right => return ([], left, right)
  | count, [], right => return (right.take count, [], right.drop count)
  | count, left, [] => return (left.take count, left.drop count, [])
  | count + 1, a :: left, b :: right => do
    if ← less b a then
      let (taken, rest) ← takeMerged less count (a :: left) right
      return (b :: taken, rest)
    else
      let (taken, rest) ← takeMerged less count left (b :: right)
      return (a :: taken, rest)

/-- The last elements of two sorted lists that are given from their ends on, the right one first. -/
def takeMergedLast (less : α → α → m Bool) (count : Nat) (rightBack leftBack : List α) :
    m (List α × List α × List α) :=
  takeMerged (fun a b => less b a) count rightBack leftBack

def merge (less : α → α → m Bool) (left right : List α) : m (List α) := do
  let count := left.length + right.length
  if left.length ≤ right.length then
    let (taken, _) ← takeMerged less count left right
    return taken
  else
    let (taken, _) ← takeMergedLast less count right.reverse left.reverse
    return taken.reverse

/-- What a merge has taken from the front and from the end of two lists, and what it has left of
each of them from either side. Neither side sees what the other one has taken. -/
structure Ends (α : Type) where
  front : List α
  back : List α
  left : List α
  right : List α
  leftBack : List α
  rightBack : List α

def takeEnds (less : α → α → m Bool) : Nat → (left right leftBack rightBack : List α) → m (Ends α)
  | 0, left, right, leftBack, rightBack => return ⟨[], [], left, right, leftBack, rightBack⟩
  | count + 1, left, right, leftBack, rightBack => do
    let (first, left, right) ← takeMerged less 1 left right
    let (last, rightBack, leftBack) ← takeMergedLast less 1 rightBack leftBack
    let ends ← takeEnds less count left right leftBack rightBack
    return { ends with front := first ++ ends.front, back := last ++ ends.back }

/-! ## Sorting by halves -/

/-- Sorts four elements with five comparisons: two pairs, their least and their greatest element,
and the two that are left. -/
def sortFour (less : α → α → m Bool) (w x y z : α) : m (List α) := do
  let (a, b) := if ← less x w then (x, w) else (w, x)
  let (c, d) := if ← less z y then (z, y) else (y, z)
  let (least, left, right, greatest) := match ← less c a, ← less d b with
    | false, false => (a, b, c, d)
    | false, true => (a, c, d, b)
    | true, false => (c, a, b, d)
    | true, true => (c, a, d, b)
  if ← less right left then return [least, right, left, greatest]
  else return [least, left, right, greatest]

def sortFirst (less : α → α → m Bool) (byFour : Bool) (xs : List α) : m (List α × List α) :=
  match byFour, xs with
  | true, w :: x :: y :: z :: rest => do return (← sortFour less w x y z, rest)
  | _, xs => return ([], xs)

def shortLength : Nat := 32

variable [MonadExceptOf Disorder m]

/-- Merges two halves of a list, from both ends to the middle. The two sides have to meet, or else
some element was taken twice. -/
def mergeHalves (less : α → α → m Bool) (left right : List α) : m (List α) := do
  let count := left.length + right.length
  let ends ← takeEnds less (count / 2) left right left.reverse right.reverse
  -- One element of an odd number of them is left in the middle.
  let odd := count % 2
  let isLeft := left.length < ends.left.length + ends.leftBack.length
  let middle := (if isLeft then ends.left else ends.right).take odd
  let oddLeft := if isLeft then odd else 0
  if ends.left.length + ends.leftBack.length = left.length + oddLeft ∧
      ends.right.length + ends.rightBack.length = right.length + (odd - oddLeft) then
    return ends.front ++ middle ++ ends.back.reverse
  else throw Disorder.mk

def sortShort (less : α → α → m Bool) (xs : List α) : m (List α) := do
  if xs.length < 2 then return xs
  let byFour := decide (8 ≤ xs.length)
  let (left, leftRest) ← sortFirst less byFour (xs.take (xs.length / 2))
  let (right, rightRest) ← sortFirst less byFour (xs.drop (xs.length / 2))
  let left ← insertAll less left leftRest
  let right ← insertAll less right rightRest
  mergeHalves less left right

end Keyset.Sorting
