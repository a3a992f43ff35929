import Keyset.SortKey
import Mathlib

/-!
# Routes by their fields

A path resolves if its segments name fields one after the other, each in the model that the field
before it leads to. A path that is one segment longer resolves to the same fields and one more.
-/
namespace Keyset

namespace Schema

/-- The fields that segments name from a model on, each in the model that the one before leads to. -/
inductive Leads (schema : Schema) : Model → List String → List Field → Prop where
  | last {model : Model} {name : String} {field : Field} (hfield : model.field? name = some field) :
    schema.Leads model [name] [field]
  | through {model next : Model} {name target : String} {rest : List String} {field : Field}
    {fields : List Field} (hfield : model.field? name = some field)
    (htarget : field.kind.target? = some target) (hnext : schema.model? target = some next)
    (h : schema.Leads next rest fields) : schema.Leads model (name :: rest) (field :: fields)

variable {schema : Schema} {model next : Model} {segments : List String} {fields : List Field}

theorem model_eq_ok_iff {name : String} :
    schema.model name = .ok model ↔ schema.model? name = some model := by
  rw [Schema.model]
  cases schema.model? name <;> simp

namespace Leads

theorem segments_ne (h : schema.Leads model segments fields) : segments ≠ [] := by
  cases h <;> simp

theorem fields_ne (h : schema.Leads model segments fields) : fields ≠ [] := by
  cases h <;> simp

/-- There is one field for each segment. -/
theorem length_eq (h : schema.Leads model segments fields) : fields.length = segments.length := by
  induction h with
  | last => rfl
  | through _ _ _ _ ih => simp [ih]

end Leads

end Schema

namespace Route

variable {schema : Schema} {path : Path} {model next : Model} {name target : String}
  {segments : List String} {fields : List Field}

private theorem follow_through {field : Field} (hfield : model.field? name = some field)
    (htarget : field.kind.target? = some target) (hnext : schema.model? target = some next)
    (hne : segments ≠ []) :
    follow schema path model (name :: segments) =
      (follow schema path next segments).map (field :: ·) := by
  have hrest : segments.isEmpty = false := by simpa using hne
  simp only [follow, hfield, hrest, Bool.false_eq_true, if_false, htarget,
    Schema.model_eq_ok_iff.2 hnext, bind, Except.bind]
  cases follow schema path next segments <;> rfl

theorem leads_of_follow (hne : segments ≠ [])
    (h : follow schema path model segments = .ok fields) : schema.Leads model segments fields := by
  induction segments generalizing model fields with
  | nil => exact absurd rfl hne
  | cons name rest ih =>
    rw [follow] at h
    split at h
    · cases h
    · next field hfield =>
      split at h
      · next hrest =>
        obtain rfl := List.isEmpty_iff.1 hrest
        cases h
        exact .last hfield
      · next hrest =>
        split at h
        · cases h
        · next target htarget =>
          cases hnext : schema.model target with
          | error e => simp only [hnext, bind, Except.bind, reduceCtorEq] at h
          | ok next =>
            cases hfollow : follow schema path next rest with
            | error e => simp only [hnext, hfollow, bind, Except.bind, reduceCtorEq] at h
            | ok tail =>
              simp only [hnext, hfollow, bind, Except.bind, pure, Except.pure,
                Except.ok.injEq] at h
              have hrestNe : rest ≠ [] := by simpa using hrest
              exact h ▸ .through hfield htarget (Schema.model_eq_ok_iff.1 hnext) (ih hrestNe hfollow)

theorem follow_of_leads (h : schema.Leads model segments fields) :
    follow schema path model segments = .ok fields := by
  induction h with
  | last hfield => simp only [follow, hfield, List.isEmpty_nil, if_true]
  | through hfield htarget hnext h ih =>
    rw [follow_through hfield htarget hnext h.segments_ne, ih]
    rfl

/-- One segment more is looked up in the model that the last field leads to. -/
theorem follow_concat (h : schema.Leads model segments fields)
    (htarget : (fields.getLast h.fields_ne).kind.target? = some target)
    (hnext : schema.model? target = some next) :
    follow schema path model (segments ++ [name]) = match next.field? name with
      | some field => .ok (fields ++ [field])
      | none => .error (.unknownField next.name name) := by
  induction h with
  | last hfield =>
    rw [List.getLast_singleton] at htarget
    rw [List.singleton_append, follow_through hfield htarget hnext (by simp), follow]
    cases next.field? name <;> rfl
  | through hfield htarget' hnext' h ih =>
    rw [List.getLast_cons h.fields_ne] at htarget
    rw [List.cons_append, follow_through hfield htarget' hnext' (by simp), ih htarget]
    cases next.field? name <;> rfl

/-- Segments that lead nowhere are no loop. -/
theorem follow_ne_loop :
    follow schema path model segments ≠ .error (.orderingLoop target) := by
  induction segments generalizing model with
  | nil => simp [follow]
  | cons name rest ih =>
    rw [follow]
    split
    · simp
    · next field _ =>
      split
      · simp
      · split
        · simp
        · next next _ =>
          rw [Schema.model]
          cases schema.model? next with
          | none => simp [bind, Except.bind]
          | some next =>
            have hrest : follow schema path next rest ≠ .error (.orderingLoop target) := ih
            cases hfollow : follow schema path next rest with
            | error e => simpa [hfollow, bind, Except.bind] using hrest
            | ok fields => simp [hfollow, bind, Except.bind, pure, Except.pure]

/-- A route that goes one field further. -/
def concat (route : Route) (name : String) (field : Field) : Route where
  path := route.path.extend name
  fields := route.fields ++ [field]
  fields_ne := by simp

variable {route : Route} {start : String} {field : Field}

@[simp] theorem path_concat : (route.concat name field).path = route.path.extend name := rfl

@[simp] theorem fields_concat : (route.concat name field).fields = route.fields ++ [field] := rfl

@[simp] theorem last_concat : (route.concat name field).last = field := by
  simp [last, concat]

@[simp] theorem hasManyToMany_concat : (route.concat name field).hasManyToMany =
    (route.hasManyToMany || field.kind.isManyToMany) := by
  simp [hasManyToMany]

theorem hasManyToMany_of_last (h : route.last.kind = .manyToMany target) :
    route.hasManyToMany = true :=
  List.any_eq_true.2 ⟨route.last, List.getLast_mem route.fields_ne, by rw [h]; rfl⟩

theorem hasManyToMany_eq_false_iff : route.hasManyToMany = false ↔
    ∀ field ∈ route.fields, field.kind.isManyToMany = false := by
  simp [hasManyToMany]

private theorem resolve_of_follow_error {e : ConfigError} (hmodel : schema.model? start = some model)
    (h : follow schema path model path.segments = .error e) :
    resolve schema start path = .error e := by
  rw [resolve, Schema.model_eq_ok_iff.2 hmodel]
  dsimp only
  split
  · next h' => rw [h] at h'; cases h'; rfl
  · next h' => rw [h] at h'; cases h'

private theorem resolve_of_follow (hmodel : schema.model? start = some model)
    (h : follow schema path model path.segments = .ok fields) :
    resolve schema start path = .ok ⟨path, fields, follow_ne path.segments_ne h⟩ := by
  rw [resolve, Schema.model_eq_ok_iff.2 hmodel]
  dsimp only
  split
  · next h' => rw [h] at h'; cases h'
  · next h' => rw [h] at h'; cases h'; rfl

theorem resolve_ne_loop : resolve schema start path ≠ .error (.orderingLoop target) := by
  intro h
  cases hmodel : schema.model? start with
  | none =>
    simp [resolve, Schema.model, hmodel] at h
  | some model =>
    cases hfollow : follow schema path model path.segments with
    | error e =>
      rw [resolve_of_follow_error hmodel hfollow, Except.error.injEq] at h
      exact follow_ne_loop (h ▸ hfollow)
    | ok fields =>
      rw [resolve_of_follow hmodel hfollow] at h
      cases h

/-- A path resolves to the route of the fields that its segments name. -/
theorem resolve_eq_ok_iff : resolve schema start path = .ok route ↔
    route.path = path ∧ ∃ model, schema.model? start = some model ∧
      schema.Leads model path.segments route.fields := by
  constructor
  · intro h
    cases hmodel : schema.model start with
    | error e => simp only [resolve, hmodel, reduceCtorEq] at h
    | ok model =>
      have hsome := Schema.model_eq_ok_iff.1 hmodel
      cases hfollow : follow schema path model path.segments with
      | error e => simp only [resolve_of_follow_error hsome hfollow, reduceCtorEq] at h
      | ok fields =>
        rw [resolve_of_follow hsome hfollow, Except.ok.injEq] at h
        subst h
        exact ⟨rfl, model, hsome, leads_of_follow path.segments_ne hfollow⟩
  · rintro ⟨rfl, model, hmodel, hleads⟩
    exact resolve_of_follow hmodel (follow_of_leads hleads)

/-- A resolved path with one segment more resolves to one field more, if the model at its end has
that field. -/
theorem resolve_extend (h : resolve schema start path = .ok route)
    (htarget : route.last.kind.target? = some target) (hnext : schema.model? target = some next)
    (name : String) :
    resolve schema start (path.extend name) = match next.field? name with
      | some field => .ok (route.concat name field)
      | none => .error (.unknownField next.name name) := by
  obtain ⟨rfl, model, hmodel, hleads⟩ := resolve_eq_ok_iff.1 h
  have hfollow : follow schema (route.path.extend name) model (route.path.extend name).segments = _ :=
    follow_concat hleads htarget hnext
  cases hfield : next.field? name with
  | none =>
    rw [hfield] at hfollow
    exact resolve_of_follow_error hmodel hfollow
  | some field =>
    rw [hfield] at hfollow
    exact resolve_of_follow hmodel hfollow

end Route

end Keyset
