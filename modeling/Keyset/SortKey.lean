import Keyset.Schema.Route

/-!
# Sort keys

A key is a dotted path with an optional minus sign for descending order. A key that ends at a
relation goes on along the default orderings of the related models, until it ends at a scalar.
-/
namespace Keyset

structure SortKey where
  /-- The key as it was given, which tokens repeat. -/
  key : String
  route : Route
  descending : Bool
  kind : ScalarKind
  deriving DecidableEq, Repr

namespace SortKey

def splitDirection (key : String) : String × Bool :=
  match stripDescending key with
  | some path => (path, true)
  | none => (key, false)

def unvisited (schema : Schema) (visited : List String) : List Model :=
  schema.models.filter fun model => !visited.contains model.name

private theorem filter_length_lt {α : Type} {p q : α → Bool} {xs : List α}
    (hpq : ∀ x, p x = true → q x = true) {x : α} (hx : x ∈ xs) (hq : q x = true)
    (hp : p x = false) : (xs.filter p).length < (xs.filter q).length := by
  induction xs with
  | nil => cases hx
  | cons y ys ih =>
    have hle : (ys.filter p).length ≤ (ys.filter q).length := by
      simp only [← List.countP_eq_length_filter]
      exact List.countP_mono_left fun a _ => hpq a
    rcases List.mem_cons.1 hx with rfl | hmem
    · simp only [List.filter_cons, hq, hp, if_true, Bool.false_eq_true, if_false,
        List.length_cons]
      omega
    · have := ih hmem
      by_cases hy : p y = true
      · simp only [List.filter_cons, hy, hpq y hy, if_true, List.length_cons]
        omega
      · simp only [List.filter_cons, hy, Bool.false_eq_true, if_false]
        by_cases hqy : q y = true
        · simp only [hqy, if_true, List.length_cons]
          omega
        · simp only [hqy, Bool.false_eq_true, if_false]
          omega

/-- A visit to a known model leaves fewer models to visit. -/
theorem unvisited_visit_lt {schema : Schema} {visited : List String} {target : String}
    {model : Model} (hmodel : schema.model? target = some model)
    (hnew : ¬ visited.contains target = true) :
    (unvisited schema (target :: visited)).length < (unvisited schema visited).length := by
  have hname : model.name = target := by simpa using List.find?_some hmodel
  refine filter_length_lt ?_ (List.mem_of_find?_eq_some hmodel) ?_ ?_
  · intro other h
    simp only [List.contains_cons, Bool.not_or, Bool.and_eq_true] at h
    exact h.2
  · simp only [hname, Bool.not_eq_true', Bool.not_eq_true] at hnew ⊢
    exact hnew
  · simp [hname]

/-- The route of a path, extended by default orderings while it ends at a relation, and the kind of
its scalar. No model is visited twice. -/
def extend (schema : Schema) (model : String) (path : Path) (visited : List String) :
    Except ConfigError (Route × ScalarKind) :=
  match Route.resolve schema model path with
  | .error e => .error e
  | .ok route =>
    if route.hasManyToMany then .error .manyToManyKey
    else match route.last.kind with
      | .scalar kind => .ok (route, kind)
      | .toOne target | .manyToMany target =>
        if _hnew : visited.contains target = true then .error (.orderingLoop target)
        else match _hmodel : schema.model? target with
          | none => .error (.unknownModel target)
          | some related =>
            match related.defaultOrdering? with
            | none => .error (.noDefaultOrdering target)
            | some ordering =>
              extend schema model (path.extend ordering) (target :: visited)
termination_by (unvisited schema visited).length
decreasing_by all_goals exact unvisited_visit_lt _hmodel _hnew

def resolve (schema : Schema) (model key : String) : Except ConfigError SortKey := do
  let (text, descending) := splitDirection key
  let path ← Path.parse text
  let (route, kind) ← extend schema model path []
  return ⟨key, route, descending, kind⟩

/-- A sort key of one scalar field, for which no models are needed. -/
def ofField (key : String) (kind : ScalarKind) (nullable : Bool) : Except ConfigError SortKey := do
  let (text, descending) := splitDirection key
  let path ← Path.parse text
  if path.segments.length ≠ 1 then .error (.schemaNeeded text)
  else return ⟨key, .single path ⟨text, nullable, .scalar kind⟩, descending, kind⟩

def path (key : SortKey) : Path := key.route.path

def isNullable (key : SortKey) : Bool := key.route.isNullable

end SortKey

end Keyset
