import Keyset.Json.Document
import Keyset.Schema

/-!
# Models as documents

A field is written with its kind among its members, so the members of the kind are read as what they
are by themselves. Members of other names are passed over.
-/
namespace Keyset

namespace ScalarKind

/-- The kind that a JSON value names: by a string, or by the only member of an object, which is
null. -/
def named? : Json.Value → Option ScalarKind
  | .string name => ofName? name
  | .object [(name, .null)] => ofName? name
  | _ => none

def ofKey? : Plain → Option ScalarKind
  | .text name => ofName? name
  | .natural n => all[n]?
  | _ => none

/-- The kind in the members of a field: a text, or a mapping with one entry that holds nothing. -/
def ofPlain? : Plain → Option ScalarKind
  | .text name => ofName? name
  | .mapping [(key, .null)] => ofKey? key
  | .mapping [(key, .mapping [])] => ofKey? key
  | _ => none

end ScalarKind

namespace FieldKind

def sortName : FieldKind → String
  | .scalar _ => "scalar"
  | .toOne _ => "to_one"
  | .manyToMany _ => "many_to_many"

def argument : FieldKind → String × String
  | .scalar kind => ("type", kind.name)
  | .toOne model => ("model", model)
  | .manyToMany model => ("model", model)

def plainText? : Plain → Option String
  | .text s => some s
  | _ => none

/-- How the member that completes a sort is read. -/
abbrev Completion := List (String × Plain) → Option FieldKind

def completeScalar : Completion := fun members =>
  (Document.required members "type" ScalarKind.ofPlain?).map .scalar

def completeRelation (make : String → FieldKind) : Completion := fun members =>
  (Document.required members "model" plainText?).map make

/-- The sorts of kinds, in the order in which numbers count them. -/
def sorts : List (String × Completion) :=
  [("scalar", completeScalar), ("to_one", completeRelation .toOne),
    ("many_to_many", completeRelation .manyToMany)]

def sort? : Plain → Option Completion
  | .text name => (sorts.find? fun sort => sort.1 == name).map (·.2)
  | .natural n => sorts[n]?.map (·.2)
  | _ => none

def ofMembers? (members : List (String × Plain)) : Option FieldKind := do
  let complete ← Document.required members "kind" sort?
  complete members

end FieldKind

namespace Field

variable {D : Type} {M : Type → Type} [Monad M] [MonadExcept Unit M] [Document D M]

/-- Reads a field. What is not its own member is left to its kind. -/
def ofDocument? (document : D) : M Field := do
  let members ← Document.members? document
  let (own, others) := members.partition fun m => m.1 == "name" || m.1 == "nullable"
  let name ← Document.required own "name" Document.text?
  let nullable ← Document.optional own "nullable" false Document.flag?
  let others ← others.mapM fun (name, value) => do return (name, ← Document.plain? value)
  let kind ← Document.ofOption (FieldKind.ofMembers? others)
  return ⟨name, nullable, kind⟩

def toJson (field : Field) : Json.Value :=
  let (name, value) := field.kind.argument
  .ofMembers [("name", .string field.name), ("nullable", .bool field.nullable),
    ("kind", .string field.kind.sortName), (name, .string value)]

end Field

namespace Model

variable {D : Type} {M : Type → Type} [Monad M] [MonadExcept Unit M] [Document D M]

def memberNames : List String := ["name", "ordering", "fields"]

def ofDocument? (document : D) : M Model := do
  let members ← Document.record? memberNames document
  let name ← Document.required members "name" Document.text?
  let ordering ← Document.optional members "ordering" [] (Document.list? Document.text?)
  let fields ← Document.optional members "fields" [] (Document.list? Field.ofDocument?)
  return ⟨name, ordering, fields⟩

def toJson (model : Model) : Json.Value :=
  .ofMembers [("name", .string model.name), ("ordering", .array (model.ordering.map .string)),
    ("fields", .array (model.fields.map Field.toJson))]

end Model

end Keyset
