import Keyset.Page.Fetch

/-!
# The tokens of a page and of its neighbours

A token for a neighbour names a record at the edge of the page by its scalar and by how many records
of that scalar lie before it. As long as the scalar changes inside the page, the page itself shows
how many. Otherwise the records of the scalar go on beyond the page, and the page's own offset or
the count of all of them has to help.
-/
namespace Keyset

/-- What a page answers, the page with what it has learned, and what it reported. -/
structure Answer (C R α : Type) where
  result : α
  page : Page C R
  events : List Event

namespace Page

variable {C R E : Type} [Record R]

/-- The token that finds the page again. -/
def info (page : Page C R) : Token :=
  let key := page.paginator.key.key
  if page.isFirst then .first
  else
    let edge := if page.forward then page.records.head? else page.nextItem
    match edge, page.nextItem with
    | some record, some _ =>
      let value := (page.scalarOf record).toJson
      if page.forward then .forward key value page.offset else .backward key value page.offset
    | _, _ => .last key

def runLength (page : Page C R) (value : Scalar) (records : List R) : Nat :=
  (records.takeWhile fun r => (page.scalarOf r).same value).length

section

variable [Store C R E]

/-- How many records have a scalar. The page asks the store once for each scalar. -/
def countDuplicates (page : Page C R) (value : Scalar) :
    Answer C R (Except (PageError E) Nat) :=
  match page.duplicates.find? fun entry => entry.1.same value with
  | some (_, count) => ⟨.ok count, page, [.duplicates value count true]⟩
  | none => match page.paginator.countDuplicates value with
    | .error e => ⟨.error e, page, []⟩
    | .ok count =>
      ⟨.ok count, { page with duplicates := page.duplicates ++ [(value, count)] },
        [.duplicates value count false]⟩

/-- How many records of a scalar lie beyond a boundary, of which `consumed` and one more lie on this
side. When the store has changed there may be none. -/
def remainingDuplicates (page : Page C R) (value : Scalar) (consumed : Nat) :
    Answer C R (Except (PageError E) Nat) :=
  let counted : Answer C R (Except (PageError E) Nat) := page.countDuplicates value
  match counted.result with
  | .error _ => counted
  | .ok total =>
    let taken := page.paginator.ceiling.add consumed 1
    if taken ≤ total then { counted with result := .ok (total - taken) }
    else
      let warning := Event.shortRun page.paginator.key.key value total consumed
      { counted with result := .ok 0, events := counted.events ++ [warning] }

def tokenAt (make : Nat → Token) (offset : Answer C R (Except (PageError E) Nat)) :
    Answer C R (Except (PageError E) (Option Token)) :=
  ⟨offset.result.map fun n => some (make n), offset.page, offset.events⟩

def nextToken (page : Page C R) : Answer C R (Except (PageError E) (Option Token)) :=
  match page.nextItem with
  | none => ⟨.ok none, page, []⟩
  | some next =>
    let value := page.scalarOf next
    let run := page.runLength value page.records.reverse
    tokenAt (.forward page.paginator.key.key value.toJson) <|
      if run = page.paginator.perPage then
        if page.forward then ⟨.ok (page.paginator.ceiling.add run page.offset), page, []⟩
        else page.remainingDuplicates value page.offset
      else ⟨.ok run, page, []⟩

def previousToken (page : Page C R) : Answer C R (Except (PageError E) (Option Token)) :=
  match page.isFirst, page.records with
  | false, first :: rest =>
    let value := page.scalarOf first
    let run := page.runLength value rest
    let goesOn := page.nextItem.any fun next => (page.scalarOf next).same value
    let ceiling := page.paginator.ceiling
    tokenAt (.backward page.paginator.key.key value.toJson) <|
      if run = page.paginator.perPage - 1 then
        if page.forward then page.remainingDuplicates value page.offset
        else if goesOn then ⟨.ok (ceiling.add (ceiling.add run page.offset) 1), page, []⟩
        else ⟨.ok run, page, []⟩
      else ⟨.ok run, page, []⟩
  | _, _ => ⟨.ok none, page, []⟩

end

end Page

end Keyset
