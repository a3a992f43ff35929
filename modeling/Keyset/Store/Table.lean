import Keyset.SortKey
import Keyset.Sorting
import Keyset.Store

/-! # Stores that are lists in memory -/
namespace Keyset

structure Incomparable where
  path : Path
  left : Scalar
  right : Scalar
  deriving DecidableEq, Repr

def Incomparable.message (e : Incomparable) : String :=
  "Cannot compare " ++ e.left.display ++ " with " ++ e.right.display ++ " on \"" ++
    e.path.text ++ "\""

def compareAt (path : Path) (left right : Scalar) : Except Incomparable Ordering :=
  match left.compare? right with
  | some order => .ok order
  | none => .error ⟨path, left, right⟩

/-- Whether a scalar passes a filter. A null is never compared. -/
def Filter.accepts (path : Path) (value : Scalar) : Filter → Except Incomparable Bool
  | .isNull => .ok value.isNull
  | .atLeast bound =>
    if value.isNull then .ok false else (compareAt path value bound).map (· != .lt)
  | .atMost bound orNull =>
    if value.isNull then .ok orNull else (compareAt path value bound).map (· != .gt)
  | .equal bound =>
    if value.isNull then .ok false else (compareAt path value bound).map (· == .eq)

def keepM {ε α : Type} (test : α → Except ε Bool) : List α → Except ε (List α)
  | [] => .ok []
  | x :: xs => do
    let kept ← test x
    let rest ← keepM test xs
    return if kept then x :: rest else rest

/-- Why records have no table: two scalars have no order, or the sort broke off at the answers that
it had for such scalars. -/
inductive Unsortable
  | incomparable (e : Incomparable)
  | disorder
  deriving DecidableEq, Repr

structure Table (R : Type) where
  records : List R
  deriving DecidableEq, Repr

namespace Table

variable {R : Type} [Record R]

/-- The order of two records by a key, and by their numbers where the key is equal. Descending keys
reverse the order of the key alone. Scalars that have no order are recorded and count as equal. -/
def compareRecords (key : SortKey) (a b : R) : Sorting.Recording Incomparable Ordering := do
  let left := Record.scalarAt a key.path
  let right := Record.scalarAt b key.path
  let order ← match left.compare? right with
    | some order => pure order
    | none => do
      modify fun failure => failure.or (some ⟨key.path, left, right⟩)
      pure .eq
  let order := if key.descending then order.swap else order
  return order.then (compare (Record.id a) (Record.id b))

def less (key : SortKey) (a b : R) : Sorting.Recording Incomparable Bool :=
  return (← compareRecords key a b) == .lt

/-- The records sorted by a key and then by their numbers. It fails with the first two scalars
without an order that the sort met, if it came to an end. -/
def orderedBy (key : SortKey) (records : List R) : Except Unsortable (Table R) :=
  match (Sorting.sort (less key) records).run none with
  | .ok (sorted, none) => .ok ⟨sorted⟩
  | .ok (_, some e) => .error (.incomparable e)
  | .error _ => .error .disorder

instance : Store (Table R) R Incomparable where
  count table := .ok table.records.length
  select table path filter := do
    let kept ← keepM (fun r => filter.accepts path (Record.scalarAt r path)) table.records
    return ⟨kept⟩
  reverse table := ⟨table.records.reverse⟩
  slice table start stop := .ok ((table.records.take stop).drop start)

end Table

structure Row where
  id : Int
  cells : List (String × Scalar)
  deriving DecidableEq, Repr

def Row.scalarAt (row : Row) (path : Path) : Scalar :=
  match row.cells.find? fun cell => path.spells cell.1 with
  | some cell => cell.2
  | none => .null

instance : Record Row := ⟨Row.id, Row.scalarAt⟩

end Keyset
