import Keyset.Sorting.Short

/-! # Sorting by pivots -/
namespace Keyset.Sorting

variable {α : Type} {m : Type → Type} [Monad m]

/-! ## Choosing a pivot -/

def lessAt (less : α → α → m Bool) (items : Array α) (i j : Nat) : m Bool :=
  match items[i]?, items[j]? with
  | some a, some b => less a b
  | _, _ => return false

def middle (less : Nat → Nat → m Bool) (a b c : Nat) : m Nat := do
  let isLess ← less a b
  if (← less a c) != isLess then return a
  else if (← less b c) == isLess then return b else return c

/-- The position of an element that is likely to be in the middle of `count` elements from a first
position on: the middle one of three that are found in the same way among an eighth of them. -/
def pivotFrom (less : Nat → Nat → m Bool) (count first : Nat) : m Nat := do
  if count < 8 then return first
  else
    let eighth := count / 8
    let a ← pivotFrom less eighth first
    let b ← pivotFrom less eighth (first + eighth * 4)
    let c ← pivotFrom less eighth (first + eighth * 7)
    middle less a b c
termination_by count

/-! ## Sorting -/

def partitionM (test : α → m Bool) : List α → m (List α × List α)
  | [] => return ([], [])
  | x :: xs => do
    let passes ← test x
    let (yes, no) ← partitionM test xs
    return if passes then (x :: yes, no) else (yes, x :: no)

/-- A list parted by a test that is not made for the pivot itself; `pivotPasses` tells its part. -/
def partAround (test : α → m Bool) (pivotPasses : Bool) (before : List α) (pivot : α)
    (after : List α) : m (List α × List α) := do
  let (yes, no) ← partitionM test before
  let (moreYes, moreNo) ← partitionM test after
  if pivotPasses then return (yes ++ pivot :: moreYes, no ++ moreNo)
  else return (yes ++ moreYes, no ++ pivot :: moreNo)

variable [MonadExceptOf Disorder m]

/-- Sorts a list by parting it at pivots, at most so many times in a row; then it is left to another
sort. `bound` is a pivot that no element is less than. When the new pivot is not greater, all
elements equal to it are split off at once. -/
def sortByPivots (less : α → α → m Bool) (other : List α → m (List α)) :
    Nat → Option α → List α → m (List α)
  | 0, _, xs => if xs.length ≤ shortLength then sortShort less xs else other xs
  | limit + 1, bound, xs => do
    if xs.length ≤ shortLength then sortShort less xs
    else
      let position ← pivotFrom (lessAt less xs.toArray) xs.length 0
      match xs.take position, xs.drop position with
      | _, [] => return xs
      | before, pivot :: after =>
        let isGreater ← match bound with
          | some bound => less bound pivot
          | none => pure true
        let (low, high) ← if isGreater then
            partAround (fun x => less x pivot) false before pivot after
          else pure ([], xs)
        if low.isEmpty then
          let (equal, high) ←
            partAround (fun x => return !(← less pivot x)) true before pivot after
          return equal ++ (← sortByPivots less other limit none high)
        else
          let high ← sortByPivots less other limit (some pivot) high
          let low ← sortByPivots less other limit bound low
          return low ++ high

end Keyset.Sorting
