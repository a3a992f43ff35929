import Keyset.Numeral
import Keyset.Sorting.Pivot

/-!
# Sorting

Short lists are sorted by insertion. Others are cut into runs, which are merged in pairs. A run that
is sorted already is taken as it is; the others are sorted late, so that neighbours of them can
first be joined to a longer one.

Where not all elements can be compared it depends on the pairs that meet whether a list can be
sorted, so which pairs meet is fixed here, and in which order. A list of any length is taken to have
a buffer of its length.
-/
namespace Keyset.Sorting

variable {α : Type} {m : Type → Type} [Monad m]

structure Run (α : Type) where
  items : List α
  sorted : Bool

namespace Run

def settle (sort : List α → m (List α)) (run : Run α) : m (List α) :=
  if run.sorted then return run.items else sort run.items

def join (less : α → α → m Bool) (sort : List α → m (List α)) (left right : Run α) :
    m (Run α) := do
  if left.sorted || right.sorted then
    let first ← left.settle sort
    let second ← right.settle sort
    return ⟨← merge less first second, true⟩
  else return ⟨left.items ++ right.items, false⟩

end Run

/-! ## Joining runs -/

/-- Runs on the left of the last one, the nearest first, each with the depth of the joint after it
in a balanced tree of merges. -/
abbrev Stack (α : Type) := List (Run α × Nat)

/-- The depth of the joint between two neighbours, given by their ends: the number of bits that the
places of their middles have in common, in units of which the list has `twoTo 62`. -/
def jointDepth (length start joint stop : Nat) : Nat :=
  let unit := (twoTo 62 + length - 1) / length
  let differing := (unit * (start + joint)) ^^^ (unit * (joint + stop))
  if differing = 0 then 64 else 63 - differing.log2

def collapse (join : Run α → Run α → m (Run α)) (depth : Nat) (last : Run α) :
    Stack α → m (Run α × Stack α)
  | [] => return (last, [])
  | (left, joint) :: stack => do
    if depth ≤ joint then collapse join depth (← join left last) stack
    else return (last, (left, joint) :: stack)

/-- Finds the runs of a list after a last one that ends at some place, and joins them all. Each run
takes an element, so the length of the list is fuel enough. -/
def joinRuns (find : List α → m (Run α × List α)) (join : Run α → Run α → m (Run α))
    (length : Nat) : Nat → Stack α → Run α → Nat → List α → m (Run α)
  | fuel + 1, stack, last, place, x :: xs => do
    let (run, rest) ← find (x :: xs)
    let stop := place + run.items.length
    let depth := jointDepth length (place - last.items.length) place stop
    let (last, stack) ← collapse join depth last stack
    joinRuns find join length fuel ((last, depth) :: stack) run stop rest
  | _, stack, last, _, _ => return (← collapse join 0 last stack).1

/-! ## Finding runs -/

def takeChain (test : α → α → m Bool) (last : α) : List α → m (List α × List α)
  | [] => return ([], [])
  | x :: xs => do
    if ← test x last then
      let (chain, rest) ← takeChain test x xs
      return (x :: chain, rest)
    else return ([], x :: xs)

/-- The elements in front that are sorted, and the rest. Elements that fall all the way are turned
round. -/
def takeSorted (less : α → α → m Bool) : List α → m (List α × List α)
  | a :: b :: xs => do
    let falls ← less b a
    let (chain, rest) ← takeChain (fun x last => return (← less x last) == falls) b xs
    return (if falls then (a :: b :: chain).reverse else a :: b :: chain, rest)
  | xs => return (xs, [])

/-- The length from which on a sorted run in a list of some length is worth keeping: half of the
list, but not more than 64, and about the square root of the length for long lists. -/
def goodLength (length : Nat) : Nat :=
  if length ≤ 64 * 64 then min (length - length / 2) 64
  else
    let root := twoTo ((1 + length.log2) / 2)
    (root + length / root) / 2

variable [MonadExceptOf Disorder m]

/-- The first run, and the rest. Without a long sorted run, some elements are a run: they are sorted
at once if `eager`, and left as they are otherwise. -/
def takeRun (less : α → α → m Bool) (eager : Bool) (good : Nat) (xs : List α) :
    m (Run α × List α) := do
  let (found, rest) ← if good ≤ xs.length then takeSorted less xs else pure ([], xs)
  if good ≤ found.length then return (⟨found, true⟩, rest)
  else if eager then
    return (⟨← sortShort less (xs.take shortLength), true⟩, xs.drop shortLength)
  else return (⟨xs.take good, false⟩, xs.drop good)

/-! ## Sorting -/

def sortRuns (less : α → α → m Bool) (sort : List α → m (List α)) (eager : Bool) (xs : List α) :
    m (List α) := do
  let find := takeRun less eager (goodLength xs.length)
  let (first, rest) ← find xs
  let joined ← joinRuns find (Run.join less sort) xs.length xs.length [] first first.items.length
    rest
  joined.settle sort

def sortLoose (less : α → α → m Bool) (xs : List α) : m (List α) :=
  sortByPivots less (sortRuns less pure true) (2 * xs.length.log2) none xs

def sort (less : α → α → m Bool) (xs : List α) : m (List α) :=
  if xs.length ≤ 20 then insertion less xs
  else sortRuns less (sortLoose less) (xs.length ≤ 2 * shortLength) xs

/-- The monad of a sort that keeps the first failure of its test and goes on. -/
abbrev Recording (ε : Type) := StateT (Option ε) (Except Disorder)

end Keyset.Sorting
