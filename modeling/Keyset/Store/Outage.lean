import Keyset.Store

/-! # Stores some of whose operations are out of order -/
namespace Keyset

inductive StoreOperation where
  | count
  | slice
  | filter
  /-- Selecting the records of one scalar, null included. -/
  | equal
  deriving DecidableEq, Repr

def StoreOperation.name : StoreOperation → String
  | .count => "count"
  | .slice => "slice"
  | .filter => "filter"
  | .equal => "equal"

def StoreOperation.all : List StoreOperation := [.count, .slice, .filter, .equal]

inductive OutageError (E : Type) where
  | unavailable (operation : StoreOperation)
  | store (e : E)
  deriving DecidableEq, Repr

def OutageError.message {E : Type} (inner : E → String) : OutageError E → String
  | .unavailable operation => "store unavailable: " ++ operation.name
  | .store e => inner e

/-- A store with a list of operations that always fail. -/
structure Outage (C : Type) where
  store : C
  failing : List StoreOperation

def Filter.isEquality : Filter → Bool
  | .isNull => true
  | .equal _ => true
  | _ => false

namespace Outage

variable {C R E : Type} [Store C R E]

def guard {α : Type} (outage : Outage C) (operations : List StoreOperation)
    (run : Except E α) : Except (OutageError E) α :=
  match operations.find? outage.failing.contains with
  | some operation => .error (.unavailable operation)
  | none => run.mapError .store

instance : Store (Outage C) R (OutageError E) where
  count outage := outage.guard [.count] (Store.count outage.store)
  select outage path filter :=
    let operations := if filter.isEquality then [.filter, .equal] else [.filter]
    (outage.guard operations (Store.select outage.store path filter)).map
      fun selected => ⟨selected, outage.failing⟩
  reverse outage := ⟨Store.reverse outage.store, outage.failing⟩
  slice outage start stop := outage.guard [.slice] (Store.slice outage.store start stop)

end Outage

end Keyset
