import Keyset.Proofs.DefaultOrderings

/-!
# What keys stand for

A key spells out a path, with a sign if the order is descending. It stands for the route that starts
with this path and ends, along the default orderings of related models, at a scalar. A key resolves
if there is such a route, and then to it.
-/
namespace Keyset

namespace Path

theorem parse_eq_ok_iff {text : String} {path : Path} :
    parse text = .ok path ↔ path.segments = dotted text ∧ "" ∉ dotted text := by
  obtain ⟨segments, _⟩ := path
  rw [parse]
  split
  · next h => simp [List.contains_iff_mem.1 h]
  · next h =>
    rw [Except.ok.injEq, Path.mk.injEq, ← List.contains_iff_mem]
    exact ⟨fun hsegments => ⟨hsegments.symm, h⟩, fun h => h.1.symm⟩

end Path

namespace SortKey

inductive Signed : String → String → Bool → Prop where
  | ascending {text : String} (h : text.toList.head? ≠ some '-') : Signed text text false
  | descending {text : String} : Signed ("-" ++ text) text true

theorem splitDirection_append (text : String) : splitDirection ("-" ++ text) = (text, true) := by
  have hchars : ("-" ++ text).toList = '-' :: text.toList := by simp
  simp only [splitDirection, stripDescending, hchars, String.ofList_toList]

theorem splitDirection_of_head? {text : String} (h : text.toList.head? ≠ some '-') :
    splitDirection text = (text, false) := by
  have hstrip : stripDescending text = none := by
    rw [stripDescending]
    split
    · next hchars => simp [hchars] at h
    · rfl
  simp only [splitDirection, hstrip]

theorem exists_signed (key : String) : ∃ text descending, Signed key text descending := by
  cases hchars : key.toList with
  | nil => exact ⟨key, false, .ascending (by simp [hchars])⟩
  | cons c rest =>
    by_cases hc : c = '-'
    · have hkey : key = "-" ++ String.ofList rest := by
        rw [← String.toList_inj, hchars]
        simp [hc]
      rw [hkey]
      exact ⟨_, true, .descending⟩
    · exact ⟨key, false, .ascending (by simp [hchars, hc])⟩

theorem splitDirection_eq_iff {key text : String} {descending : Bool} :
    splitDirection key = (text, descending) ↔ Signed key text descending := by
  constructor
  · intro h
    obtain ⟨text', descending', hsigned⟩ := exists_signed key
    cases hsigned with
    | ascending hhead =>
      rw [splitDirection_of_head? hhead] at h
      cases h
      exact .ascending hhead
    | descending =>
      rw [splitDirection_append] at h
      cases h
      exact .descending
  · intro h
    cases h with
    | ascending hhead => exact splitDirection_of_head? hhead
    | descending => exact splitDirection_append text

theorem Signed.descending_iff {key text : String} {descending : Bool}
    (h : Signed key text descending) : descending = true ↔ key.toList.head? = some '-' := by
  cases h with
  | ascending h => simp [h]
  | descending => simp

/-- A key spells out a route: each segment of its path names a field of it. -/
structure Spells (schema : Schema) (model key : String) (descending : Bool) (start : Route) :
    Prop where
  signed : ∃ text, Signed key text descending ∧ start.path.segments = dotted text
  nonempty : "" ∉ start.path.segments
  leads : ∃ first, schema.model? model = some first ∧
    schema.Leads first start.path.segments start.fields

/-- A sort key that a key stands for: its route goes on from the one that is spelled out to a
scalar, along default orderings. -/
structure StandsFor (schema : Schema) (model key : String) (sortKey : SortKey) : Prop where
  key_eq : sortKey.key = key
  extends_spelled : ∃ start, Spells schema model key sortKey.descending start ∧
    schema.Extends start sortKey.route
  not_manyToMany : ∀ field ∈ sortKey.route.fields, field.kind.isManyToMany = false
  ends : sortKey.route.last.kind = .scalar sortKey.kind

variable {schema : Schema} {model key : String} {start : Route} {descending : Bool}
  {sortKey : SortKey}

theorem spells_iff : Spells schema model key descending start ↔ ∃ text path,
    splitDirection key = (text, descending) ∧ Path.parse text = .ok path ∧
      Route.resolve schema model path = .ok start := by
  constructor
  · rintro ⟨⟨text, hsigned, hsegments⟩, hnonempty, hleads⟩
    refine ⟨text, start.path, splitDirection_eq_iff.2 hsigned, ?_, ?_⟩
    · exact Path.parse_eq_ok_iff.2 ⟨hsegments, hsegments ▸ hnonempty⟩
    · exact Route.resolve_eq_ok_iff.2 ⟨rfl, hleads⟩
  · rintro ⟨text, path, hsplit, hparse, hroute⟩
    obtain ⟨hsegments, hnonempty⟩ := Path.parse_eq_ok_iff.1 hparse
    obtain ⟨rfl, hleads⟩ := Route.resolve_eq_ok_iff.1 hroute
    exact ⟨⟨text, splitDirection_eq_iff.1 hsplit, hsegments⟩, hsegments ▸ hnonempty, hleads⟩

/-- A key that spells out a route resolves to what the search from there finds. -/
theorem resolve_of_spells (h : Spells schema model key descending start) :
    ∃ path, Route.resolve schema model path = .ok start ∧ resolve schema model key =
      (extend schema model path []).map fun found => ⟨key, found.1, descending, found.2⟩ := by
  obtain ⟨text, path, hsplit, hparse, hroute⟩ := spells_iff.1 h
  refine ⟨path, hroute, ?_⟩
  simp only [resolve, hsplit, hparse, bind, Except.bind]
  cases extend schema model path [] <;> rfl

theorem resolve_of_not_spells (h : ¬ ∃ descending start, Spells schema model key descending start) :
    ∃ e, resolve schema model key = .error e ∧ ∀ target, e ≠ .orderingLoop target := by
  obtain ⟨text, descending, hsigned⟩ := exists_signed key
  have hsplit := splitDirection_eq_iff.2 hsigned
  cases hparse : Path.parse text with
  | error e =>
    refine ⟨e, ?_, ?_⟩
    · simp only [resolve, hsplit, hparse, bind, Except.bind]
    · rw [Path.parse] at hparse
      split at hparse
      · cases hparse
        simp
      · cases hparse
  | ok path =>
    cases hroute : Route.resolve schema model path with
    | error e =>
      refine ⟨e, ?_, ?_⟩
      · simp only [resolve, hsplit, hparse, extend_of_error hroute, bind, Except.bind]
      · rintro target rfl
        exact Route.resolve_ne_loop hroute
    | ok start => exact absurd ⟨descending, start, spells_iff.2 ⟨text, path, hsplit, hparse, hroute⟩⟩ h

theorem Spells.unique {descending' : Bool} {start' : Route}
    (h : Spells schema model key descending start)
    (h' : Spells schema model key descending' start') : descending' = descending ∧ start' = start := by
  obtain ⟨text, path, hsplit, hparse, hroute⟩ := spells_iff.1 h
  obtain ⟨text', path', hsplit', hparse', hroute'⟩ := spells_iff.1 h'
  rw [hsplit, Prod.mk.injEq] at hsplit'
  obtain ⟨rfl, rfl⟩ := hsplit'
  obtain rfl := Except.ok.inj (hparse.symm.trans hparse')
  exact ⟨rfl, Except.ok.inj (hroute'.symm.trans hroute)⟩

/-- A key resolves to what it stands for. -/
theorem resolve_eq_ok_iff : resolve schema model key = .ok sortKey ↔
    StandsFor schema model key sortKey := by
  obtain ⟨key', last, descending, kind⟩ := sortKey
  by_cases hspells : ∃ descending start, Spells schema model key descending start
  · obtain ⟨descending', start, hspells⟩ := hspells
    obtain ⟨path, hroute, hresolve⟩ := resolve_of_spells hspells
    have hfound : extend schema model path [] = .ok (last, kind) ↔ _ := extend_eq_ok_iff hroute
    constructor
    · intro h
      rw [hresolve] at h
      cases hextend : extend schema model path [] with
      | error e => simp [hextend, Except.map] at h
      | ok found =>
        rw [hextend] at h
        cases h
        obtain ⟨hreach, hmany, hends⟩ := hfound.1 hextend
        exact ⟨rfl, ⟨start, hspells, hreach⟩, Route.hasManyToMany_eq_false_iff.1 hmany, hends⟩
    · rintro ⟨rfl, ⟨start', hspells', hreach⟩, hmany, hends⟩
      obtain ⟨rfl, rfl⟩ := hspells.unique hspells'
      rw [hresolve, hfound.2 ⟨hreach, Route.hasManyToMany_eq_false_iff.2 hmany, hends⟩]
      rfl
  · obtain ⟨e, he, _⟩ := resolve_of_not_spells hspells
    rw [he]
    constructor
    · intro h
      cases h
    · rintro ⟨_, ⟨start, hspells', _⟩, _, _⟩
      exact absurd ⟨_, start, hspells'⟩ hspells

theorem resolve_eq_loop_iff : (∃ target, resolve schema model key = .error (.orderingLoop target)) ↔
    ∃ descending start, Spells schema model key descending start ∧
      start.hasManyToMany = false ∧ schema.Endless start := by
  constructor
  · rintro ⟨target, h⟩
    by_cases hspells : ∃ descending start, Spells schema model key descending start
    · obtain ⟨descending, start, hspells⟩ := hspells
      obtain ⟨path, hroute, hresolve⟩ := resolve_of_spells hspells
      refine ⟨descending, start, hspells, (extend_eq_loop_iff hroute).1 ⟨target, ?_⟩⟩
      rw [hresolve] at h
      cases hextend : extend schema model path [] with
      | error e =>
        rw [hextend] at h
        exact congrArg _ (Except.error.inj h)
      | ok found =>
        rw [hextend] at h
        cases h
    · obtain ⟨e, he, hne⟩ := resolve_of_not_spells hspells
      exact absurd (Except.error.inj (he.symm.trans h)) (hne target)
  · rintro ⟨descending, start, hspells, hloop⟩
    obtain ⟨path, hroute, hresolve⟩ := resolve_of_spells hspells
    obtain ⟨target, hextend⟩ := (extend_eq_loop_iff hroute).2 hloop
    exact ⟨target, by rw [hresolve, hextend]; rfl⟩

/-- What a resolved key is made of: the key as it was given, its direction, one field for each
segment of its path, a scalar at the end, and null if any field can be. -/
structure Fits (key : String) (sortKey : SortKey) : Prop where
  key_eq : sortKey.key = key
  descending_iff : sortKey.descending = true ↔ key.toList.head? = some '-'
  length_eq : sortKey.route.fields.length = sortKey.path.segments.length
  ends : sortKey.route.last.kind = .scalar sortKey.kind
  isNullable_iff : sortKey.isNullable = true ↔
    ∃ field ∈ sortKey.route.fields, field.nullable = true

theorem StandsFor.fits (h : StandsFor schema model key sortKey) : Fits key sortKey where
  key_eq := h.key_eq
  descending_iff := by
    obtain ⟨_, ⟨⟨_, hsigned, _⟩, _, _⟩, _⟩ := h.extends_spelled
    exact hsigned.descending_iff
  length_eq := by
    obtain ⟨start, ⟨_, _, _, _, hleads⟩, hreach⟩ := h.extends_spelled
    exact hreach.length_eq hleads.length_eq
  ends := h.ends
  isNullable_iff := List.any_eq_true

/-- In every schema, a key resolves to the sort key that it stands for, and is refused if it stands
for none. A loop is reported for endless default orderings only. The search for the end takes no
more rounds than there are models, and one. -/
theorem resolve_standsFor (schema : Schema) (model key : String) :
    (∀ sortKey, resolve schema model key = .ok sortKey ↔ StandsFor schema model key sortKey) ∧
    (∀ sortKey, resolve schema model key = .ok sortKey → Fits key sortKey) ∧
    ((∃ target, resolve schema model key = .error (.orderingLoop target)) ↔
      ∃ descending start, Spells schema model key descending start ∧
        start.hasManyToMany = false ∧ schema.Endless start) ∧
    (∀ path, extendWithin schema model (schema.models.length + 1) path [] =
      some (extend schema model path [])) := by
  refine ⟨fun sortKey => resolve_eq_ok_iff, fun sortKey h => (resolve_eq_ok_iff.1 h).fits,
    resolve_eq_loop_iff, fun path => extendWithin_eq ?_⟩
  have hle : (unvisited schema []).length ≤ schema.models.length := List.length_filter_le _ _
  omega

end SortKey

end Keyset
