import Keyset.Path
import Keyset.Scalar

/-!
# Ordered stores of records

A store has its records in a fixed order that ends with a unique tiebreak. Nulls are lowest in it.
Selecting and reversing keep the order, and each operation but reversing may fail.
-/
namespace Keyset

inductive Filter where
  | isNull
  /-- The scalar is at least a bound, and not null. -/
  | atLeast (bound : Scalar)
  /-- The scalar is at most a bound, or null if that is allowed. -/
  | atMost (bound : Scalar) (orNull : Bool)
  /-- The scalar is equal to a value, and not null. -/
  | equal (value : Scalar)
  deriving DecidableEq, Repr

def Filter.sameAs (value : Scalar) : Filter :=
  if value.isNull then .isNull else .equal value

/-- Records with a unique number and scalars at paths. -/
class Record (R : Type) where
  id : R → Int
  /-- The scalar at a path; null where the path leads nowhere. -/
  scalarAt : R → Path → Scalar

/-- A type of stores, of their records and of their failures. -/
class Store (C : Type) (R E : outParam Type) where
  count : C → Except E Nat
  /-- The records that pass a filter on the scalar at a path. -/
  select : C → Path → Filter → Except E C
  /-- The records in reversed order. -/
  reverse : C → C
  /-- The records from one position up to another, as far as there are any. -/
  slice : C → Nat → Nat → Except E (List R)

end Keyset
