import Keyset.Path
import Keyset.Schema

/-! # The fields along a path -/
namespace Keyset

/-- A path together with the field that each of its segments names. -/
structure Route where
  path : Path
  fields : List Field
  fields_ne : fields ≠ []
  deriving DecidableEq, Repr

namespace Route

/-- The fields of some segments, from a model on. All but the last have to be relations. -/
def follow (schema : Schema) (path : Path) (model : Model) :
    List String → Except ConfigError (List Field)
  | [] => .ok []
  | segment :: rest =>
    match model.field? segment with
    | none => .error (.unknownField model.name segment)
    | some field =>
      if rest.isEmpty then .ok [field]
      else match field.kind.target? with
        | none => .error (.throughScalar path.text segment)
        | some target => do
          let next ← schema.model target
          let fields ← follow schema path next rest
          return field :: fields

theorem follow_ne {schema : Schema} {path : Path} {model : Model} {segments : List String}
    {fields : List Field} (hne : segments ≠ [])
    (h : follow schema path model segments = .ok fields) : fields ≠ [] := by
  cases segments with
  | nil => exact absurd rfl hne
  | cons segment rest =>
    simp only [follow] at h
    split at h
    · cases h
    · split at h
      · cases h; simp
      · split at h
        · cases h
        · rename_i field _ _ target _
          cases hm : schema.model target with
          | error e => simp [hm, bind, Except.bind] at h
          | ok next =>
            cases hf : follow schema path next rest with
            | error e => simp [hm, hf, bind, Except.bind] at h
            | ok tail =>
              simp only [hm, hf, bind, Except.bind, pure, Except.pure, Except.ok.injEq] at h
              simp [← h]

def resolve (schema : Schema) (model : String) (path : Path) : Except ConfigError Route :=
  match schema.model model with
  | .error e => .error e
  | .ok first =>
    match h : follow schema path first path.segments with
    | .error e => .error e
    | .ok fields => .ok ⟨path, fields, follow_ne path.segments_ne h⟩

def single (path : Path) (field : Field) : Route := ⟨path, [field], by simp⟩

def last (route : Route) : Field := route.fields.getLast route.fields_ne

def isNullable (route : Route) : Bool := route.fields.any (·.nullable)

def hasManyToMany (route : Route) : Bool := route.fields.any (·.kind.isManyToMany)

end Route

end Keyset
