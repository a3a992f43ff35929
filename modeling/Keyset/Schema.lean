import Keyset.ConfigError
import Keyset.Scalar.Kind

/-!
# Models of records

A schema holds the models under their names, in increasing order of the names. Keys are resolved
against it.
-/
namespace Keyset

inductive FieldKind where
  | scalar (kind : ScalarKind)
  /-- A reference to at most one record of another model. -/
  | toOne (model : String)
  /-- References to any number of records of another model. -/
  | manyToMany (model : String)
  deriving DecidableEq, Repr

namespace FieldKind

def target? : FieldKind → Option String
  | .scalar _ => none
  | .toOne model => some model
  | .manyToMany model => some model

def isManyToMany : FieldKind → Bool
  | .manyToMany _ => true
  | _ => false

end FieldKind

structure Field where
  name : String
  nullable : Bool := false
  kind : FieldKind
  deriving DecidableEq, Repr

/-- A type of records. The first entry of the ordering extends keys that end at this model. -/
structure Model where
  name : String
  ordering : List String := []
  fields : List Field := []
  deriving DecidableEq, Repr

def stripDescending (text : String) : Option String :=
  match text.toList with
  | '-' :: rest => some (String.ofList rest)
  | _ => none

namespace Model

def field? (model : Model) (name : String) : Option Field :=
  model.fields.find? fun field => field.name == name

/-- The field that the model is ordered by first, whatever the direction. -/
def defaultOrdering? (model : Model) : Option String := do
  let first ← model.ordering.head?
  let field := (stripDescending first).getD first
  if field = "" then none else some field

end Model

structure Schema where
  models : List Model := []
  deriving DecidableEq, Repr

namespace Schema

def empty : Schema := {}

def model? (schema : Schema) (name : String) : Option Model :=
  schema.models.find? fun model => model.name == name

def model (schema : Schema) (name : String) : Except ConfigError Model :=
  match schema.model? name with
  | some model => .ok model
  | none => .error (.unknownModel name)

def knows (schema : Schema) (name : String) : Bool := (schema.model? name).isSome

/-- Puts a model before the first one with a greater name. -/
def insertModel (model : Model) : List Model → List Model
  | [] => [model]
  | other :: rest =>
    if model.name < other.name then model :: other :: rest
    else other :: insertModel model rest

def register (schema : Schema) (model : Model) : Except ConfigError Schema :=
  if model.name = "" then .error .emptyModelName
  else if schema.knows model.name then .error (.duplicateModel model.name)
  else .ok ⟨insertModel model schema.models⟩

def checkField (schema : Schema) (model : Model) (field : Field) : Except ConfigError Unit :=
  match field.kind.target? with
  | some target =>
    if schema.knows target then .ok () else .error (.danglingField model.name field.name target)
  | none => .ok ()

/-- Checks the fields of a model in their order, and then its ordering. -/
def checkModel (schema : Schema) (model : Model) : Except ConfigError Unit := do
  model.fields.forM (schema.checkField model)
  match model.defaultOrdering? with
  | some field =>
    if (model.field? field).isSome then .ok () else .error (.unknownOrdering model.name field)
  | none => .ok ()

def validate (schema : Schema) : Except ConfigError Unit :=
  schema.models.forM schema.checkModel

def registerAll (models : List Model) (schema : Schema) : Except ConfigError Schema :=
  models.foldlM register schema

def ofModels (models : List Model) : Except ConfigError Schema := do
  let schema ← registerAll models empty
  schema.validate
  return schema

end Schema

end Keyset
