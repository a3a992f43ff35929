import Keyset.Proofs.KeyResolution

/-!
# Valid schemas

In a valid schema all relations lead to models of the schema, and all models are ordered by fields
that they have. A route that has been resolved can then be extended by default orderings until it
comes to a scalar, to a relation to many records, to a model without an ordering, or round in a loop.
-/
namespace Keyset

section

variable {α ε : Type} {check : α → Except ε Unit} {x : α} {xs : List α} {e : ε}

theorem forM_cons_of_ok (h : check x = .ok ()) : (x :: xs).forM check = xs.forM check := by
  change (check x >>= fun _ => xs.forM check) = _
  rw [h]
  rfl

theorem forM_cons_of_error (h : check x = .error e) : (x :: xs).forM check = .error e := by
  change (check x >>= fun _ => xs.forM check) = _
  rw [h]
  rfl

theorem forM_eq_ok_iff : xs.forM check = .ok () ↔ ∀ x ∈ xs, check x = .ok () := by
  induction xs with
  | nil => exact ⟨fun _ x hx => absurd hx List.not_mem_nil, fun _ => rfl⟩
  | cons x xs ih =>
    rw [List.forall_mem_cons, ← ih]
    cases hx : check x with
    | error e => simp [forM_cons_of_error hx]
    | ok => simp [forM_cons_of_ok hx]

/-- A list that fails a check has a first element that does, and fails with its error. -/
theorem forM_eq_error_iff : xs.forM check = .error e ↔ ∃ front x back, xs = front ++ x :: back ∧
    (∀ y ∈ front, check y = .ok ()) ∧ check x = .error e := by
  constructor
  · intro h
    induction xs with
    | nil => cases h
    | cons x xs ih =>
      cases hx : check x with
      | error e' =>
        rw [forM_cons_of_error hx] at h
        exact ⟨[], x, xs, rfl, fun y hy => absurd hy List.not_mem_nil, hx.trans h⟩
      | ok =>
        rw [forM_cons_of_ok hx] at h
        obtain ⟨front, y, back, rfl, hfront, hy⟩ := ih h
        exact ⟨x :: front, y, back, rfl, List.forall_mem_cons.2 ⟨hx, hfront⟩, hy⟩
  · rintro ⟨front, x, back, rfl, hfront, hx⟩
    induction front with
    | nil => exact forM_cons_of_error hx
    | cons y front ih =>
      obtain ⟨hy, hfront⟩ := List.forall_mem_cons.1 hfront
      exact (forM_cons_of_ok hy).trans (ih hfront)

end

namespace Schema

/-- Relations lead to known models, and orderings to known fields. -/
structure Valid (schema : Schema) : Prop where
  relations : ∀ model ∈ schema.models, ∀ field ∈ model.fields, ∀ target,
    field.kind.target? = some target → ∃ related, schema.model? target = some related
  orderings : ∀ model ∈ schema.models, ∀ name,
    model.defaultOrdering? = some name → ∃ field, model.field? name = some field

variable {schema : Schema} {model : Model} {field : Field}

theorem checkField_eq_ok_iff : schema.checkField model field = .ok () ↔
    ∀ target, field.kind.target? = some target → ∃ related, schema.model? target = some related := by
  rw [checkField]
  cases field.kind.target? with
  | none => simp
  | some target => cases hmodel : schema.model? target <;> simp [knows, hmodel]

theorem checkModel_eq_ok_iff : schema.checkModel model = .ok () ↔
    (∀ field ∈ model.fields, ∀ target, field.kind.target? = some target →
      ∃ related, schema.model? target = some related) ∧
    ∀ name, model.defaultOrdering? = some name → ∃ field, model.field? name = some field := by
  have hfields : model.fields.forM (schema.checkField model) = .ok () ↔ _ := forM_eq_ok_iff
  simp only [checkField_eq_ok_iff] at hfields
  rw [checkModel, ← hfields]
  cases model.fields.forM (schema.checkField model) with
  | error e => simp [bind, Except.bind]
  | ok =>
    cases model.defaultOrdering? with
    | none => simp [bind, Except.bind]
    | some name => simp [bind, Except.bind, Option.isSome_iff_exists]

theorem validate_eq_ok_iff : schema.validate = .ok () ↔ schema.Valid := by
  rw [validate, forM_eq_ok_iff]
  simp only [checkModel_eq_ok_iff]
  exact ⟨fun h => ⟨fun m hm => (h m hm).1, fun m hm => (h m hm).2⟩,
    fun h m hm => ⟨h.relations m hm, h.orderings m hm⟩⟩

theorem ofModels_eq_ok_iff_registerAll {models : List Model} :
    ofModels models = .ok schema ↔ registerAll models empty = .ok schema ∧ schema.validate = .ok () := by
  rw [ofModels]
  cases registerAll models empty with
  | error e => simp [bind, Except.bind]
  | ok built =>
    simp only [bind, Except.bind, Except.ok.injEq]
    constructor
    · intro h
      split at h
      · cases h
      · next hvalid =>
        cases h
        exact ⟨rfl, hvalid⟩
    · rintro ⟨rfl, hvalid⟩
      rw [hvalid]
      rfl

theorem Valid.of_ofModels {models : List Model} (h : ofModels models = .ok schema) :
    schema.Valid :=
  validate_eq_ok_iff.1 (ofModels_eq_ok_iff_registerAll.1 h).2

def Declares (schema : Schema) (field : Field) : Prop :=
  ∃ model ∈ schema.models, field ∈ model.fields

theorem mem_of_model? {name : String} (h : schema.model? name = some model) :
    model ∈ schema.models :=
  List.mem_of_find?_eq_some h

theorem declares_of_field? {name : String} (hmodel : model ∈ schema.models)
    (h : model.field? name = some field) : schema.Declares field :=
  ⟨model, hmodel, List.mem_of_find?_eq_some h⟩

theorem Leads.declares {segments : List String} {fields : List Field}
    (h : schema.Leads model segments fields) (hmodel : model ∈ schema.models) :
    ∀ field ∈ fields, schema.Declares field := by
  induction h with
  | last hfield =>
    intro field hmem
    rw [List.mem_singleton] at hmem
    exact hmem ▸ declares_of_field? hmodel hfield
  | through hfield _ hnext _ ih =>
    exact List.forall_mem_cons.2 ⟨declares_of_field? hmodel hfield, ih (mem_of_model? hnext)⟩

theorem Extends.declares_last {start route : Route} (h : schema.Extends start route)
    (hstart : schema.Declares start.last) : schema.Declares route.last := by
  cases h with
  | refl => exact hstart
  | tail _ hnext =>
    cases hnext with
    | intro _ hmodel _ hfield =>
      rw [Route.last_concat]
      exact declares_of_field? (mem_of_model? hmodel) hfield

/-- What keeps a route from being extended to a scalar, though the schema is valid. -/
inductive Hinders (schema : Schema) (start : Route) : ConfigError → Prop where
  | manyToMany {route : Route} (hroute : schema.Extends start route)
    (hmany : ∃ field ∈ route.fields, field.kind.isManyToMany = true) :
    schema.Hinders start .manyToManyKey
  | noOrdering {route : Route} {target : String} {related : Model}
    (hroute : schema.Extends start route) (hlast : route.last.kind = .toOne target)
    (hmodel : schema.model? target = some related) (hordering : related.defaultOrdering? = none) :
    schema.Hinders start (.noDefaultOrdering target)
  | loop {route : Route} {target : String} (hroute : schema.Extends start route)
    (hlast : route.last.kind = .toOne target) (hendless : schema.Endless start) :
    schema.Hinders start (.orderingLoop target)

/-- In a valid schema, no chain of default orderings breaks off at something unknown. -/
theorem Settles.hinders {start : Route} {e : ConfigError} (h : schema.Settles start (.error e))
    (hvalid : schema.Valid) (hstart : schema.Declares start.last) : schema.Hinders start e := by
  cases h with
  | manyToMany hroute hmany => exact .manyToMany hroute (List.any_eq_true.1 hmany)
  | noOrdering hroute hlast hmodel hordering => exact .noOrdering hroute hlast hmodel hordering
  | loop hroute hlast _ hendless => exact .loop hroute hlast hendless
  | unknownModel hroute hlast hmodel =>
    obtain ⟨other, hother, hfield⟩ := hroute.declares_last hstart
    obtain ⟨related, hrelated⟩ := hvalid.relations other hother _ hfield _
      (congrArg FieldKind.target? hlast)
    rw [hmodel] at hrelated
    cases hrelated
  | unknownField hroute hlast hmodel hordering hfield =>
    obtain ⟨field, hknown⟩ := hvalid.orderings _ (mem_of_model? hmodel) _ hordering
    rw [hfield] at hknown
    cases hknown

end Schema

/-- In a schema that is built of models, a key whose path resolves can only be refused for what
hinders its extension: a relation to many records, a model without an ordering, or a loop. It is
never refused for an unknown model or field, nor for a path through a scalar. -/
theorem SortKey.resolve_hindered {models : List Model} {schema : Schema} {model key text : String}
    {descending : Bool} {path : Path} {start : Route} {e : ConfigError}
    (hschema : Schema.ofModels models = .ok schema)
    (hsplit : splitDirection key = (text, descending)) (hparse : Path.parse text = .ok path)
    (hroute : Route.resolve schema model path = .ok start)
    (he : resolve schema model key = .error e) :
    schema.Hinders start e ∧ (∀ name, e ≠ .unknownModel name) ∧
      (∀ model field, e ≠ .unknownField model field) ∧
      (∀ path segment, e ≠ .throughScalar path segment) := by
  have hsettles := extend_nil_settles hroute
  have hstart : schema.Declares start.last := by
    obtain ⟨_, first, hfirst, hleads⟩ := Route.resolve_eq_ok_iff.1 hroute
    exact hleads.declares (Schema.mem_of_model? hfirst) _ (List.getLast_mem _)
  have herror : extend schema model path [] = .error e := by
    simp only [resolve, hsplit, hparse, bind, Except.bind] at he
    cases hextend : extend schema model path [] with
    | error e' =>
      rw [hextend] at he
      exact congrArg _ (Except.error.inj he)
    | ok found =>
      rw [hextend] at he
      cases he
  rw [herror] at hsettles
  have hhinders := hsettles.hinders (.of_ofModels hschema) hstart
  refine ⟨hhinders, ?_⟩
  cases hhinders <;> simp

/-- Users in the order of their teams, and teams in the order of their leads. -/
def teams : List Model :=
  [⟨"User", ["-team"], [⟨"team", true, .toOne "Team"⟩]⟩,
    ⟨"Team", ["lead"], [⟨"lead", false, .toOne "User"⟩]⟩]

theorem SortKey.resolve_hindered_teams : ∃ schema path start,
    Schema.ofModels teams = .ok schema ∧ splitDirection "-lead.team" = ("lead.team", true) ∧
      Path.parse "lead.team" = .ok path ∧ Route.resolve schema "Team" path = .ok start ∧
      resolve schema "Team" "-lead.team" = .error (.orderingLoop "Team") ∧
      schema.Hinders start (.orderingLoop "Team") := by
  have hschema : Schema.ofModels teams = .ok ⟨teams.reverse⟩ := rfl
  have hsplit : splitDirection "-lead.team" = ("lead.team", true) := rfl
  have hparse : Path.parse "lead.team" = .ok ⟨["lead", "team"], by decide⟩ := rfl
  have hroute : Route.resolve ⟨teams.reverse⟩ "Team" ⟨["lead", "team"], by decide⟩ =
      .ok ⟨_, [⟨"lead", false, .toOne "User"⟩, ⟨"team", true, .toOne "Team"⟩], by decide⟩ := rfl
  have hloop : resolve ⟨teams.reverse⟩ "Team" "-lead.team" = .error (.orderingLoop "Team") := by
    decide +kernel
  exact ⟨_, _, _, hschema, hsplit, hparse, hroute, hloop,
    (resolve_hindered hschema hsplit hparse hroute hloop).1⟩

end Keyset
