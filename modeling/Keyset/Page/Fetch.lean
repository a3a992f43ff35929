import Keyset.Page
import Keyset.Scalar.Codec

/-!
# Finding the page of a token

All records on the far side of the boundary are selected, and the page is cut out of them at the
offset. One record more than the page tells whether another page follows; backward, a second one
tells that there is something before the page.
-/
namespace Keyset

/-- A result and the events on the way to it. -/
structure Logged (α : Type) where
  result : α
  events : List Event

namespace Paginator

def make {C : Type} (store : C) (key : SortKey) (perPage count : Nat) :
    Except ConfigError (Paginator C) :=
  if h : 1 < perPage then
    .ok { store := store, key := key, perPage := perPage, count := count, one_lt_perPage := h }
  else .error (.pageTooSmall perPage)

variable {C R E : Type}

/-- The records of a cut that belong to a page, and the one after them. -/
def splitNext (perPage : Nat) (records : List R) : List R × Option R :=
  if perPage < records.length then (records.dropLast, records.getLast?) else (records, none)

section

variable [Store C R E]

def counted (store : C) (key : SortKey) (perPage : Nat) :
    Except (PageError E) (Paginator C) := do
  let count ← (Store.count store).mapError .store
  (make store key perPage count).mapError .config

def firstPage (p : Paginator C) : Logged (Except (PageError E) (Page C R)) :=
  match Store.slice p.store 0 (p.ceiling.add p.perPage 1) with
  | .error e => ⟨.error (.store e), []⟩
  | .ok cut =>
    let (records, next) := splitNext p.perPage cut
    ⟨.ok ⟨p, records, true, 0, next, true, []⟩, [.firstPage p.key.key records.length]⟩

def lastPage (p : Paginator C) : Except (PageError E) (Page C R) := do
  let cut ← (Store.slice (Store.reverse p.store) 0 p.perPage).mapError .store
  return ⟨p, cut.reverse, false, 0, none, false, []⟩

def checkKey (p : Paginator C) (token : Token) : Except (PageError E) Unit :=
  match token.key with
  | none => .error (.token .missingKey)
  | some key =>
    if key = p.key.key then .ok () else .error (.token (.otherKey key p.key.key))

def boundary (p : Paginator C) (token : Token) : Except (PageError E) Scalar :=
  match token.value with
  | none => .error (.token .missingValue)
  | some value => (p.key.kind.decode value).mapError .token

/-- The filter that leaves the records at a boundary and beyond, towards smaller scalars if
`downwards`. All scalars are at least null, which needs no filter. -/
def viewFilter (p : Paginator C) (value : Scalar) (downwards : Bool) : Option Filter :=
  match value.isNull, downwards with
  | true, false => none
  | true, true => some .isNull
  | false, false => some (.atLeast value)
  | false, true => some (.atMost value p.key.isNullable)

def view (p : Paginator C) (value : Scalar) (downwards : Bool) : Except (PageError E) C :=
  match p.viewFilter value downwards with
  | none => .ok p.store
  | some filter => (Store.select p.store p.key.path filter).mapError .store

def forwardPage (p : Paginator C) (token : Token) : Except (PageError E) (Page C R) := do
  let value ← p.boundary token
  let view ← p.view value p.key.descending
  let stop := p.ceiling.add token.offset (p.ceiling.add p.perPage 1)
  let cut ← (Store.slice view token.offset stop).mapError .store
  let (records, next) := splitNext p.perPage cut
  if records.isEmpty then .error .endOfSequence
  else return ⟨p, records, true, token.offset, next, false, []⟩

/-- The page before a boundary. Seen backward, it lies between the record at the boundary and one
more record, which has to be there. -/
def backwardPage (p : Paginator C) (token : Token) : Except (PageError E) (Page C R) := do
  let value ← p.boundary token
  let view ← p.view value (!p.key.descending)
  let size := p.ceiling.add p.perPage 2
  let stop := p.ceiling.add token.offset size
  let cut ← (Store.slice (Store.reverse view) token.offset stop).mapError .store
  if cut.length ≠ size then .error .startOfSequence
  else
    let inOrder := cut.dropLast.reverse
    return ⟨p, inOrder.dropLast, false, token.offset, inOrder.getLast?, false, []⟩

def boundaryPage (p : Paginator C) (token : Token) :
    Logged (Except (PageError E) (Page C R)) :=
  let fetched : Except (PageError E) (Page C R) := do
    p.checkKey token
    match token.kind with
    | .forward => p.forwardPage token
    | .backward => p.backwardPage token
    | _ => p.lastPage
  match fetched with
  | .error e => ⟨.error e, []⟩
  | .ok page =>
    ⟨.ok page,
      [.page token.kind p.key.key token.offset page.records.length page.hasNext]⟩

/-- The page of a token. Without a token, and when all records fit one page, it is the first. -/
def page (p : Paginator C) : Option Token → Logged (Except (PageError E) (Page C R))
  | none => p.firstPage
  | some token =>
    if token.kind ≠ .first ∧ p.perPage < p.count then p.boundaryPage token else p.firstPage

def last (p : Paginator C) : Logged (Except (PageError E) (Page C R)) :=
  p.page (some (.last p.key.key))

theorem last_eq (p : Paginator C) :
    (p.last : Logged (Except (PageError E) (Page C R))) = p.page (some (.last p.key.key)) := rfl

def countDuplicates (p : Paginator C) (value : Scalar) : Except (PageError E) Nat := do
  let same ← (Store.select p.store p.key.path (.sameAs value)).mapError PageError.store
  (Store.count same).mapError .store

end

end Paginator

end Keyset
