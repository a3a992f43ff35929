/-! # What can be wrong with models, keys and listings -/
namespace Keyset

inductive ConfigError where
  | emptyModelName
  | duplicateModel (model : String)
  | unknownModel (model : String)
  /-- A relation leads to a model that is not there. -/
  | danglingField (model field target : String)
  /-- A model is ordered by a field it does not have. -/
  | unknownOrdering (model field : String)
  | malformedPath (text : String)
  | unknownField (model field : String)
  /-- A path goes on after a scalar field. -/
  | throughScalar (path segment : String)
  | manyToManyKey
  | orderingLoop (model : String)
  | noDefaultOrdering (model : String)
  /-- A key of several segments needs models. -/
  | schemaNeeded (path : String)
  | emptyListingModel
  | emptyListingKey
  | pageTooSmall (perPage : Nat)
  | unknownListing (name : String)
  /-- The listing of this name has an error. -/
  | inListing (name : String) (cause : ConfigError)
  deriving DecidableEq, Repr

namespace ConfigError

/-- A text between double quotes, as it is. -/
def quoted (text : String) : String := "\"" ++ text ++ "\""

def detail : ConfigError → String
  | .emptyModelName => "Model name cannot be empty"
  | .duplicateModel model => "Model " ++ quoted model ++ " is registered twice"
  | .unknownModel model => "Unknown model " ++ quoted model
  | .danglingField model field target =>
    "Field " ++ quoted (model ++ "." ++ field) ++ " refers to unknown model " ++ quoted target
  | .unknownOrdering model field =>
    "Model " ++ quoted model ++ " is ordered by unknown field " ++ quoted field
  | .malformedPath text => "Invalid key path " ++ quoted text
  | .unknownField model field =>
    "Invalid key: model " ++ quoted model ++ " has no field " ++ quoted field
  | .throughScalar path segment =>
    "Invalid key: " ++ quoted path ++ " goes through " ++ quoted segment ++
      ", which is not a relation"
  | .manyToManyKey => "Invalid key: many-to-many fields cannot be used as key"
  | .orderingLoop model =>
    "Invalid key: default orderings of related models loop back to " ++ quoted model
  | .noDefaultOrdering model =>
    "Invalid key: related model " ++ quoted model ++ " should declare a default ordering"
  | .schemaNeeded path =>
    "Invalid key: " ++ quoted path ++ " must be resolved against a schema"
  | .emptyListingModel => "Listing model cannot be empty"
  | .emptyListingKey => "Listing key cannot be empty"
  | .pageTooSmall perPage => "per_page must be greater than 1 (got " ++ toString perPage ++ ")"
  | .unknownListing name => "Unknown listing " ++ quoted name
  | .inListing name cause => "Listing " ++ quoted name ++ ": " ++ cause.detail

def message (e : ConfigError) : String := "Configuration error: " ++ e.detail

end ConfigError

end Keyset
