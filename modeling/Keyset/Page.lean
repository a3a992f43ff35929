import Keyset.SortKey
import Keyset.Store
import Keyset.Trace

/-!
# Pages

A paginator is a store with the key it is sorted by and the size of its pages. A page holds some
records in the order of the store, the record after them if there is one, and the counts of equal
scalars that it has asked the store for.
-/
namespace Keyset

/-- The largest number that counters reach; `none` is no bound. -/
abbrev Ceiling := Option Nat

/-- A sum of counters, which stays at the ceiling instead of passing it. -/
def Ceiling.add (ceiling : Ceiling) (m n : Nat) : Nat :=
  match ceiling with
  | some top => min (m + n) top
  | none => m + n

def wordCeiling : Ceiling := some 0xffffffffffffffff

inductive PageError (E : Type) where
  | config (e : ConfigError)
  | token (e : TokenError)
  /-- A forward token points past the last record. -/
  | endOfSequence
  /-- A backward token reaches the first page. -/
  | startOfSequence
  | store (e : E)

namespace PageError

variable {E : Type}

def message (inner : E → String) : PageError E → String
  | .config e => e.message
  | .token e => e.message
  | .endOfSequence => "End of sequence: the last page has been exceeded"
  | .startOfSequence => "Start of sequence: the first page has been reached"
  | .store e => inner e

def isBoundary : PageError E → Bool
  | .endOfSequence => true
  | .startOfSequence => true
  | _ => false

def isInvalidToken : PageError E → Bool
  | .token _ => true
  | _ => false

def storeError? : PageError E → Option E
  | .store e => some e
  | _ => none

end PageError

/-- A store with the key it is sorted by, a page size and a count of its records, which may be out
of date. -/
structure Paginator (C : Type) where
  store : C
  key : SortKey
  perPage : Nat
  count : Nat
  one_lt_perPage : 1 < perPage
  ceiling : Ceiling := wordCeiling

/-- Some records of a store, and what is needed to find those before and after them. -/
structure Page (C R : Type) where
  paginator : Paginator C
  records : List R
  /-- The page is counted from its first record on, and not from its end. -/
  forward : Bool
  /-- How many records of the boundary's scalar lie on its other side. -/
  offset : Nat
  /-- The first record of the next page. -/
  nextItem : Option R
  /-- No page comes before. -/
  isFirst : Bool
  /-- The counts of equal scalars that the store has given. -/
  duplicates : List (Scalar × Nat) := []

namespace Page

variable {C R : Type}

def hasNext (page : Page C R) : Bool := page.nextItem.isSome

/-- Whether a page comes before; of all pages only the first says no. -/
def hasPrevious (page : Page C R) : Bool := !page.isFirst

def hasOtherPages (page : Page C R) : Bool := page.hasPrevious || page.hasNext

def display (page : Page C R) : String :=
  "Page \x7b key: " ++ Text.quote page.paginator.key.key ++
    ", forward: " ++ toString page.forward ++
    ", offset: " ++ toString page.offset ++
    ", len: " ++ toString page.records.length ++
    ", has_previous: " ++ toString page.hasPrevious ++
    ", has_next: " ++ toString page.hasNext ++ " \x7d"

def scalarOf [Record R] (page : Page C R) (record : R) : Scalar :=
  Record.scalarAt record page.paginator.key.path

end Page

end Keyset
