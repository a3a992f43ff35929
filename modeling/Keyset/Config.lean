import Keyset.Page.Fetch

/-!
# Configurations

A configuration declares models, and listings over them by name. It is valid if each listing is,
that is if its key names a sort key and its pages hold two records at least.
-/
namespace Keyset

def defaultPerPage : Nat := 25

structure Listing where
  model : String
  key : String
  perPage : Nat := defaultPerPage
  deriving DecidableEq, Repr

namespace Listing

def validate (listing : Listing) : Except ConfigError Unit :=
  if listing.model = "" then .error .emptyListingModel
  else if listing.key = "" ∨ listing.key = "-" then .error .emptyListingKey
  else if listing.perPage ≤ 1 then .error (.pageTooSmall listing.perPage)
  else .ok ()

def sortKey (schema : Schema) (listing : Listing) : Except ConfigError SortKey := do
  listing.validate
  SortKey.resolve schema listing.model listing.key

end Listing

/-- The paginator of a listing, over a store that has the order of its key. -/
def Paginator.ofListing {C : Type} (store : C) (schema : Schema) (listing : Listing)
    (count : Nat) : Except ConfigError (Paginator C) := do
  let key ← listing.sortKey schema
  make store key listing.perPage count

/-- Models, and listings by name in increasing order of the names. -/
structure Config where
  models : List Model := []
  listings : List (String × Listing) := []
  deriving DecidableEq, Repr

namespace Config

/-- Puts a listing under its name, instead of one that was there. -/
def insertListing (name : String) (listing : Listing) :
    List (String × Listing) → List (String × Listing)
  | [] => [(name, listing)]
  | (other, old) :: rest =>
    if name < other then (name, listing) :: (other, old) :: rest
    else if name = other then (name, listing) :: rest
    else (other, old) :: insertListing name listing rest

def schema (config : Config) : Except ConfigError Schema :=
  Schema.ofModels config.models

def listing (config : Config) (name : String) : Except ConfigError Listing :=
  match config.listings.find? fun entry => entry.1 == name with
  | some (_, listing) => .ok listing
  | none => .error (.unknownListing name)

/-- Checks that a listing has a sort key; an error tells the name of the listing. -/
def checkListing (schema : Schema) (entry : String × Listing) : Except ConfigError Unit :=
  match entry.2.sortKey schema with
  | .ok _ => .ok ()
  | .error e => .error (.inListing entry.1 e)

/-- Checks the models, and then the listings in the order of their names. -/
def validate (config : Config) : Except ConfigError Unit := do
  let schema ← config.schema
  config.listings.forM (checkListing schema)

end Config

end Keyset
