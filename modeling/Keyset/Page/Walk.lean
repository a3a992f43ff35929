import Keyset.Page.Neighbours

/-! # Walking from the first page to the last -/
namespace Keyset

inductive Position (E : Type) where
  | start
  | at (token : Token)
  /-- The page before had no next token because of this error. -/
  | failed (e : PageError E)
  | done

structure Walk (C E : Type) where
  paginator : Paginator C
  position : Position E

def Paginator.walk {C E : Type} (p : Paginator C) : Walk C E := ⟨p, .start⟩

namespace Walk

variable {C R E : Type} [Record R] [Store C R E]

def positionAfter : Except (PageError E) (Option Token) → Position E
  | .ok (some token) => .at token
  | .ok none => .done
  | .error e => .failed e

/-- Goes to the page of a token. Beyond the last page there is nothing more. -/
def visit (walk : Walk C E) (token : Option Token) :
    Logged (Option (Except (PageError E) (Page C R)) × Walk C E) :=
  let stopped : Walk C E := { walk with position := .done }
  let fetched : Logged (Except (PageError E) (Page C R)) := walk.paginator.page token
  match fetched.result with
  | .ok page =>
    let next : Answer C R (Except (PageError E) (Option Token)) := page.nextToken
    ⟨(some (.ok next.page), { walk with position := positionAfter next.result }),
      fetched.events ++ next.events⟩
  | .error .endOfSequence => ⟨(none, stopped), fetched.events⟩
  | .error e => ⟨(some (.error e), stopped), fetched.events⟩

def next (walk : Walk C E) : Logged (Option (Except (PageError E) (Page C R)) × Walk C E) :=
  match walk.position with
  | .start => walk.visit none
  | .at token => walk.visit (some token)
  | .failed e => ⟨(some (.error e), { walk with position := .done }), []⟩
  | .done => ⟨(none, walk), []⟩

structure Steps (C R E : Type) where
  items : List (Except (PageError E) (Page C R))
  /-- There are no more. -/
  ended : Bool
  walk : Walk C E

def follow (walk : Walk C E) : Nat → Logged (Steps C R E)
  | 0 => ⟨⟨[], false, walk⟩, []⟩
  | n + 1 =>
    let step : Logged (Option (Except (PageError E) (Page C R)) × Walk C E) := walk.next
    match step.result with
    | (none, after) => ⟨⟨[], true, after⟩, step.events⟩
    | (some item, after) =>
      let rest := after.follow n
      ⟨{ rest.result with items := item :: rest.result.items }, step.events ++ rest.events⟩

end Walk

end Keyset
