/-!
# Documents

Models and listings are read from trees of data in more than one notation. A document says what a
tree is when a text, a flag, a list or a record is asked for, and what it is when nothing is asked
for.
-/
namespace Keyset

inductive Plain where
  | null
  | flag (b : Bool)
  | natural (n : Nat)
  /-- A number below zero or with a fraction; which one does not count here. -/
  | number
  | text (s : String)
  | sequence (items : List Plain)
  | mapping (entries : List (Plain × Plain))
  deriving Repr

/-- A type of data trees. Each function fails for a tree that is not of the kind asked for. -/
class Document (D : Type) (M : outParam (Type → Type)) where
  text? : D → M String
  flag? : D → M Bool
  /-- A natural number of 64 bits. -/
  natural? : D → M Nat
  items? : D → M (List D)
  /-- The members in their order, each as often as it is written. -/
  members? : D → M (List (String × D))
  /-- The members of a record whose names have an order. -/
  record? : List String → D → M (List (String × D))
  /-- What the tree is by itself. -/
  plain? : D → M Plain

namespace Document

variable {D α : Type} {M : Type → Type} [Monad M] [MonadExcept Unit M]

def ofOption : Option α → M α
  | some a => pure a
  | none => throw ()

/-- Reads a member that has to be there, once. -/
def required (members : List (String × D)) (name : String) (read : D → M α) : M α :=
  match members.filter fun m => m.1 == name with
  | [m] => read m.2
  | _ => throw ()

/-- Reads a member that may be missing, but not be there twice. -/
def optional (members : List (String × D)) (name : String) (default : α) (read : D → M α) : M α :=
  match members.filter fun m => m.1 == name with
  | [] => pure default
  | [m] => read m.2
  | _ => throw ()

def list? [Document D M] (read : D → M α) (document : D) : M (List α) := do
  (← items? document).mapM read

end Document

end Keyset
