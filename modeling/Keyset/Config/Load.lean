import Keyset.Config
import Keyset.Schema.Codec
import Keyset.Yaml.Document

/-! # Configurations from documents, YAML texts and files -/
namespace Keyset

/-! ## Documents -/

namespace Listing

variable {D : Type} {M : Type → Type} [Monad M] [MonadExcept Unit M] [Document D M]

def memberNames : List String := ["model", "key", "per_page"]

def ofDocument? (document : D) : M Listing := do
  let members ← Document.record? memberNames document
  let model ← Document.required members "model" Document.text?
  let key ← Document.required members "key" Document.text?
  let perPage ← Document.optional members "per_page" defaultPerPage Document.natural?
  return ⟨model, key, perPage⟩

def toJson (listing : Listing) : Json.Value :=
  .ofMembers [("model", .string listing.model), ("key", .string listing.key),
    ("per_page", .integer listing.perPage)]

end Listing

namespace Config

variable {D : Type} {M : Type → Type} [Monad M] [MonadExcept Unit M] [Document D M]

def memberNames : List String := ["models", "listings"]

/-- Reads listings by name. Of two with one name the last counts, but both have to be listings. -/
def readListings (document : D) : M (List (String × Listing)) := do
  let members ← Document.members? document
  members.foldlM (fun listings (name, value) => do
    return insertListing name (← Listing.ofDocument? value) listings) []

/-- Reads a configuration, which need not be valid. -/
def ofDocument? (document : D) : M Config := do
  let members ← Document.record? memberNames document
  let models ← Document.optional members "models" [] (Document.list? Model.ofDocument?)
  let listings ← Document.optional members "listings" [] readListings
  return ⟨models, listings⟩

def toJson (config : Config) : Json.Value :=
  .ofMembers [("models", .array (config.models.map Model.toJson)),
    ("listings", .ofMembers (config.listings.map fun entry => (entry.1, entry.2.toJson)))]

end Config

/-! ## Texts and files -/

inductive LoadError where
  /-- There is no file. -/
  | notFound
  /-- The file is not a text. -/
  | notText
  /-- The text is not YAML, or not a configuration. -/
  | malformed
  | config (e : ConfigError)
  deriving DecidableEq, Repr

namespace Config

/-- The configuration that a YAML text describes, valid or not. -/
def readYaml? (text : String) : Option Config := do
  let tree ← Yaml.Tree.ofText? text
  (ofDocument? tree).run' tree.aliasLimit

def ofYaml (text : String) : Except LoadError Config :=
  match readYaml? text with
  | some config => match config.validate with
    | .ok _ => .ok config
    | .error e => .error (.config e)
  | none => .error .malformed

/-- The configuration of a file with the given bytes, if there is a file. -/
def ofFile (bytes : Option ByteArray) : Except LoadError Config :=
  match bytes with
  | none => .error .notFound
  | some bytes => match String.fromUTF8? bytes with
    | some text => ofYaml text
    | none => .error .notText

end Config

end Keyset
