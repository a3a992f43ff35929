import Keyset.Proofs.Routes

/-!
# Chains of default orderings

A route that ends at a relation goes on with the field that the related model is ordered by. This
leads to a scalar, or it breaks off, or it comes to a model for the second time and then goes round
for ever. The search for the scalar tells which of these is the case.
-/
namespace Keyset

namespace Schema

/-- A route that ends at a relation to one record is followed by the route that has one field more,
by which the related model is ordered. -/
inductive Continues (schema : Schema) (route : Route) : Route → Prop where
  | intro {target name : String} {related : Model} {field : Field}
    (hlast : route.last.kind = .toOne target) (hmodel : schema.model? target = some related)
    (hordering : related.defaultOrdering? = some name)
    (hfield : related.field? name = some field) : schema.Continues route (route.concat name field)

/-- Routes along the default orderings, from a route on. -/
abbrev Extends (schema : Schema) : Route → Route → Prop := Relation.ReflTransGen schema.Continues

/-- The default orderings never come to an end. -/
def Endless (schema : Schema) (start : Route) : Prop :=
  ∀ route, schema.Extends start route → ∃ next, schema.Continues route next

/-- How the search for a scalar along the default orderings ends, for each way that they go. -/
inductive Settles (schema : Schema) (start : Route) :
    Except ConfigError (Route × ScalarKind) → Prop where
  | scalar {route : Route} {kind : ScalarKind} (hroute : schema.Extends start route)
    (hmany : route.hasManyToMany = false) (hlast : route.last.kind = .scalar kind) :
    schema.Settles start (.ok (route, kind))
  | manyToMany {route : Route} (hroute : schema.Extends start route)
    (hmany : route.hasManyToMany = true) : schema.Settles start (.error .manyToManyKey)
  | unknownModel {route : Route} {target : String} (hroute : schema.Extends start route)
    (hlast : route.last.kind = .toOne target) (hmodel : schema.model? target = none) :
    schema.Settles start (.error (.unknownModel target))
  | noOrdering {route : Route} {target : String} {related : Model}
    (hroute : schema.Extends start route) (hlast : route.last.kind = .toOne target)
    (hmodel : schema.model? target = some related) (hordering : related.defaultOrdering? = none) :
    schema.Settles start (.error (.noDefaultOrdering target))
  | unknownField {route : Route} {target name : String} {related : Model}
    (hroute : schema.Extends start route) (hlast : route.last.kind = .toOne target)
    (hmodel : schema.model? target = some related)
    (hordering : related.defaultOrdering? = some name) (hfield : related.field? name = none) :
    schema.Settles start (.error (.unknownField related.name name))
  | loop {route : Route} {target : String} (hroute : schema.Extends start route)
    (hlast : route.last.kind = .toOne target) (hmany : start.hasManyToMany = false)
    (hendless : schema.Endless start) : schema.Settles start (.error (.orderingLoop target))

variable {schema : Schema} {start route next : Route} {target : String}

theorem continues_rightUnique : Relator.RightUnique schema.Continues := by
  rintro route _ _ ⟨hlast, hmodel, hordering, hfield⟩ ⟨hlast', hmodel', hordering', hfield'⟩
  obtain rfl : _ = _ := FieldKind.toOne.inj (hlast.symm.trans hlast')
  obtain rfl := Option.some.inj (hmodel.symm.trans hmodel')
  obtain rfl := Option.some.inj (hordering.symm.trans hordering')
  obtain rfl := Option.some.inj (hfield.symm.trans hfield')
  rfl

theorem Continues.hasManyToMany (h : schema.Continues route next)
    (hmany : route.hasManyToMany = true) : next.hasManyToMany = true := by
  cases h
  simp [hmany]

theorem Extends.hasManyToMany (h : schema.Extends start route)
    (hmany : start.hasManyToMany = true) : route.hasManyToMany = true := by
  induction h with
  | refl => exact hmany
  | tail _ hnext ih => exact hnext.hasManyToMany ih

theorem Extends.length_eq (h : schema.Extends start route)
    (hlength : start.fields.length = start.path.segments.length) :
    route.fields.length = route.path.segments.length := by
  induction h with
  | refl => exact hlength
  | tail _ hnext ih =>
    cases hnext
    simp [ih]

theorem Extends.of_scalar {kind : ScalarKind} (h : schema.Extends start route)
    (hlast : route.last.kind = .scalar kind) (hnext : schema.Extends start next) :
    schema.Extends next route := by
  rcases h.total_of_right_unique continues_rightUnique hnext with hafter | hbefore
  · rcases hafter.cases_head with rfl | ⟨_, ⟨hlast'⟩, _⟩
    · exact .refl
    · rw [hlast] at hlast'
      cases hlast'
  · exact hbefore

theorem Extends.eq_of_scalar {kind : ScalarKind} (h : schema.Extends start route)
    (hlast : start.last.kind = .scalar kind) : route = start := by
  rcases h.cases_head with rfl | ⟨_, ⟨hlast'⟩, _⟩
  · rfl
  · rw [hlast] at hlast'
    cases hlast'

theorem Extends.exists_continues {kind : ScalarKind} (h : schema.Extends start route)
    (hlast : route.last.kind = .scalar kind) (hnext : schema.Extends start next)
    (htarget : next.last.kind = .toOne target) : ∃ after, schema.Continues next after := by
  rcases (h.of_scalar hlast hnext).cases_head with rfl | ⟨after, hafter, _⟩
  · rw [hlast] at htarget
    cases htarget
  · exact ⟨after, hafter⟩

theorem Endless.of_continues (h : schema.Endless next) (hnext : schema.Continues start next) :
    schema.Endless start := by
  intro route hroute
  rcases hroute.cases_head with rfl | ⟨other, hother, hroute⟩
  · exact ⟨next, hnext⟩
  · exact h route (continues_rightUnique hother hnext ▸ hroute)

theorem Endless.exists_last (h : schema.Endless start) (hroute : schema.Extends start route) :
    ∃ target, route.last.kind = .toOne target := by
  obtain ⟨_, hlast, _⟩ := h route hroute
  exact ⟨_, hlast⟩

theorem Endless.hasManyToMany (h : schema.Endless start) (hroute : schema.Extends start route) :
    route.hasManyToMany = start.hasManyToMany := by
  induction hroute with
  | refl => rfl
  | tail hroute hnext ih =>
    obtain ⟨target, hlast⟩ := h.exists_last (hroute.tail hnext)
    cases hnext
    rw [Route.last_concat] at hlast
    rw [Route.hasManyToMany_concat, ih, hlast]
    exact Bool.or_false _

theorem Settles.of_continues {result : Except ConfigError (Route × ScalarKind)}
    (h : schema.Settles next result) (hnext : schema.Continues start next) :
    schema.Settles start result := by
  cases h with
  | scalar hroute hmany hlast => exact .scalar (hroute.head hnext) hmany hlast
  | manyToMany hroute hmany => exact .manyToMany (hroute.head hnext) hmany
  | unknownModel hroute hlast hmodel => exact .unknownModel (hroute.head hnext) hlast hmodel
  | noOrdering hroute hlast hmodel hordering =>
    exact .noOrdering (hroute.head hnext) hlast hmodel hordering
  | unknownField hroute hlast hmodel hordering hfield =>
    exact .unknownField (hroute.head hnext) hlast hmodel hordering hfield
  | loop hroute hlast hmany hendless =>
    refine .loop (hroute.head hnext) hlast ?_ (hendless.of_continues hnext)
    rw [← Bool.not_eq_true] at hmany ⊢
    exact fun h => hmany (hnext.hasManyToMany h)

/-! ## The search -/

/-- The models that were visited: each is ordered by a relation to another of them, or by the field
that the route ends with. -/
def Trail (schema : Schema) (visited : List String) (route : Route) : Prop :=
  ∀ target ∈ visited, ∃ related name field, schema.model? target = some related ∧
    related.defaultOrdering? = some name ∧ related.field? name = some field ∧
    (field = route.last ∨ ∃ next ∈ visited, field.kind = .toOne next)

theorem Trail.concat {visited : List String} {related : Model} {name : String} {field : Field}
    (h : schema.Trail visited route) (hlast : route.last.kind = .toOne target)
    (hmodel : schema.model? target = some related)
    (hordering : related.defaultOrdering? = some name)
    (hfield : related.field? name = some field) :
    schema.Trail (target :: visited) (route.concat name field) := by
  intro other hother
  rcases List.mem_cons.1 hother with rfl | hother
  · exact ⟨related, name, field, hmodel, hordering, hfield, .inl Route.last_concat.symm⟩
  · obtain ⟨related', name', field', hmodel', hordering', hfield', hgoes⟩ := h other hother
    refine ⟨related', name', field', hmodel', hordering', hfield', .inr ?_⟩
    rcases hgoes with rfl | ⟨next, hnext, hkind⟩
    · exact ⟨target, List.mem_cons_self, hlast⟩
    · exact ⟨next, List.mem_cons_of_mem _ hnext, hkind⟩

/-- A chain that comes back to a visited model stays among the visited models. -/
theorem Trail.endless {visited : List String} (h : schema.Trail visited start)
    (hlast : start.last.kind = .toOne target) (hvisited : target ∈ visited) :
    schema.Endless start := by
  have hstays : ∀ route, schema.Extends start route →
      ∃ again ∈ visited, route.last.kind = .toOne again := by
    intro route hroute
    induction hroute with
    | refl => exact ⟨target, hvisited, hlast⟩
    | tail _ hnext ih =>
      obtain ⟨again, hagain, hkind⟩ := ih
      obtain ⟨hlast', hmodel', hordering', hfield'⟩ := hnext
      obtain ⟨related, name, field, hmodel, hordering, hfield, hgoes⟩ := h again hagain
      obtain rfl := FieldKind.toOne.inj (hkind.symm.trans hlast')
      obtain rfl := Option.some.inj (hmodel.symm.trans hmodel')
      obtain rfl := Option.some.inj (hordering.symm.trans hordering')
      obtain rfl := Option.some.inj (hfield.symm.trans hfield')
      rw [Route.last_concat]
      rcases hgoes with rfl | hgoes
      · exact ⟨target, hvisited, hlast⟩
      · exact hgoes
  intro route hroute
  obtain ⟨again, hagain, hkind⟩ := hstays route hroute
  obtain ⟨related, name, field, hmodel, hordering, hfield, _⟩ := h again hagain
  exact ⟨_, .intro hkind hmodel hordering hfield⟩

end Schema

namespace SortKey

open Schema

variable {schema : Schema} {model : String} {path : Path} {visited : List String} {route : Route}

theorem extend_of_error {e : ConfigError} (h : Route.resolve schema model path = .error e) :
    extend schema model path visited = .error e := by
  rw [extend, h]

/-- The search ends as the chain of default orderings does. -/
theorem extend_settles (hroute : Route.resolve schema model path = .ok route)
    (htrail : schema.Trail visited route) :
    schema.Settles route (extend schema model path visited) := by
  fun_induction extend schema model path visited generalizing route with
  | case1 path visited e herror =>
    rw [herror] at hroute
    cases hroute
  | case2 path visited other hother hmany =>
    obtain rfl := Except.ok.inj (hother.symm.trans hroute)
    exact .manyToMany .refl hmany
  | case3 path visited other hother hmany kind hlast =>
    obtain rfl := Except.ok.inj (hother.symm.trans hroute)
    exact .scalar .refl (Bool.not_eq_true _ ▸ hmany) hlast
  | case4 path visited other hother hmany target hlast hvisited =>
    obtain rfl := Except.ok.inj (hother.symm.trans hroute)
    have hmem : target ∈ visited := by simpa using hvisited
    exact .loop .refl hlast (Bool.not_eq_true _ ▸ hmany) (htrail.endless hlast hmem)
  | case5 path visited other hother hmany target hlast hnew hmodel =>
    obtain rfl := Except.ok.inj (hother.symm.trans hroute)
    exact .unknownModel .refl hlast hmodel
  | case6 path visited other hother hmany target hlast hnew related hmodel hordering =>
    obtain rfl := Except.ok.inj (hother.symm.trans hroute)
    exact .noOrdering .refl hlast hmodel hordering
  | case7 path visited other hother hmany target hlast hnew related hmodel name hordering ih =>
    obtain rfl := Except.ok.inj (hother.symm.trans hroute)
    have hlonger := Route.resolve_extend hroute (congrArg FieldKind.target? hlast) hmodel name
    cases hfield : related.field? name with
    | none =>
      rw [hfield] at hlonger
      rw [extend_of_error hlonger]
      exact .unknownField .refl hlast hmodel hordering hfield
    | some field =>
      rw [hfield] at hlonger
      exact (ih hlonger (htrail.concat hlast hmodel hordering hfield)).of_continues
        (.intro hlast hmodel hordering hfield)
  | case8 path visited other hother hmany target hlast =>
    exact absurd (Route.hasManyToMany_of_last hlast) hmany
  | case9 path visited other hother hmany target hlast =>
    exact absurd (Route.hasManyToMany_of_last hlast) hmany
  | case10 path visited other hother hmany target hlast =>
    exact absurd (Route.hasManyToMany_of_last hlast) hmany
  | case11 path visited other hother hmany target hlast =>
    exact absurd (Route.hasManyToMany_of_last hlast) hmany

theorem extend_nil_settles (hroute : Route.resolve schema model path = .ok route) :
    schema.Settles route (extend schema model path []) :=
  extend_settles hroute fun _ h => absurd h List.not_mem_nil

theorem extend_eq_ok_iff {last : Route} {kind : ScalarKind}
    (hroute : Route.resolve schema model path = .ok route) :
    extend schema model path [] = .ok (last, kind) ↔ schema.Extends route last ∧
      last.hasManyToMany = false ∧ last.last.kind = .scalar kind := by
  have hsettles := extend_nil_settles hroute
  constructor
  · intro h
    rw [h] at hsettles
    cases hsettles with
    | scalar hroute hmany hlast => exact ⟨hroute, hmany, hlast⟩
  · rintro ⟨hreach, hmany, hlast⟩
    generalize extend schema model path [] = result at hsettles ⊢
    cases hsettles with
    | scalar hreach' hmany' hlast' =>
      obtain rfl := (hreach.of_scalar hlast hreach').eq_of_scalar hlast'
      rw [hlast, FieldKind.scalar.injEq] at hlast'
      rw [hlast']
    | manyToMany hreach' hmany' =>
      rw [(hreach.of_scalar hlast hreach').hasManyToMany hmany'] at hmany
      cases hmany
    | unknownModel hreach' hlast' hmodel =>
      obtain ⟨_, hlast'', hmodel', _⟩ := hreach.exists_continues hlast hreach' hlast'
      simp_all
    | noOrdering hreach' hlast' hmodel hordering =>
      obtain ⟨_, hlast'', hmodel', hordering', _⟩ := hreach.exists_continues hlast hreach' hlast'
      simp_all
    | unknownField hreach' hlast' hmodel hordering hfield =>
      obtain ⟨_, hlast'', hmodel', hordering', hfield'⟩ :=
        hreach.exists_continues hlast hreach' hlast'
      simp_all
    | loop hreach' hlast' hmany' hendless =>
      obtain ⟨target, hlast''⟩ := hendless.exists_last hreach
      rw [hlast] at hlast''
      cases hlast''

theorem extend_eq_loop_iff (hroute : Route.resolve schema model path = .ok route) :
    (∃ target, extend schema model path [] = .error (.orderingLoop target)) ↔
      route.hasManyToMany = false ∧ schema.Endless route := by
  have hsettles := extend_nil_settles hroute
  constructor
  · rintro ⟨target, h⟩
    rw [h] at hsettles
    cases hsettles with
    | loop _ _ hmany hendless => exact ⟨hmany, hendless⟩
  · rintro ⟨hmany, hendless⟩
    generalize extend schema model path [] = result at hsettles ⊢
    cases hsettles with
    | scalar hreach _ hlast =>
      obtain ⟨target, hlast'⟩ := hendless.exists_last hreach
      rw [hlast] at hlast'
      cases hlast'
    | manyToMany hreach hmany' =>
      rw [hendless.hasManyToMany hreach, hmany] at hmany'
      cases hmany'
    | unknownModel hreach hlast hmodel =>
      obtain ⟨_, hlast', hmodel', _⟩ := hendless _ hreach
      simp_all
    | noOrdering hreach hlast hmodel hordering =>
      obtain ⟨_, hlast', hmodel', hordering', _⟩ := hendless _ hreach
      simp_all
    | unknownField hreach hlast hmodel hordering hfield =>
      obtain ⟨_, hlast', hmodel', hordering', hfield'⟩ := hendless _ hreach
      simp_all
    | loop => exact ⟨_, rfl⟩

/-! ## The number of rounds -/

def extendWithin (schema : Schema) (model : String) :
    Nat → Path → List String → Option (Except ConfigError (Route × ScalarKind))
  | 0, _, _ => none
  | rounds + 1, path, visited =>
    match Route.resolve schema model path with
    | .error e => some (.error e)
    | .ok route =>
      if route.hasManyToMany then some (.error .manyToManyKey)
      else match route.last.kind with
        | .scalar kind => some (.ok (route, kind))
        | .toOne target | .manyToMany target =>
          if visited.contains target = true then some (.error (.orderingLoop target))
          else match schema.model? target with
            | none => some (.error (.unknownModel target))
            | some related => match related.defaultOrdering? with
              | none => some (.error (.noDefaultOrdering target))
              | some ordering =>
                extendWithin schema model rounds (path.extend ordering) (target :: visited)

/-- Each round but the last visits a model that was not visited before. -/
theorem extendWithin_eq {rounds : Nat} (h : (unvisited schema visited).length < rounds) :
    extendWithin schema model rounds path visited = some (extend schema model path visited) := by
  fun_induction extend schema model path visited generalizing rounds <;>
    obtain ⟨rounds, rfl⟩ := Nat.exists_eq_succ_of_ne_zero (Nat.ne_zero_of_lt h)
  case case7 path visited route hroute hmany target hlast hnew related hmodel name hordering ih =>
    have hfewer := unvisited_visit_lt hmodel hnew
    simp only [extendWithin, hroute, hmany, hlast, hnew, hmodel, hordering]
    exact ih (by omega)
  case case11 path visited route hroute hmany target hlast _ _ _ _ _ _ =>
    exact absurd (Route.hasManyToMany_of_last hlast) hmany
  all_goals simp_all only [extendWithin, Bool.false_eq_true, if_true, if_false]

end SortKey

end Keyset
