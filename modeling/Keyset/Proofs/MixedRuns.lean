import Keyset.Page.Walk
import Keyset.Proofs.Windows

/-!
# Runs of numbers of different kinds

A page measures runs by equality, which is within one kind, and the store selects them by comparison,
where an integer can be equal to a decimal or to a number of double precision. In a column of one
kind the two agree. In a mixed column a page takes a run to end at the first record of another kind,
and its tokens then count too few records.
-/
namespace Keyset

namespace Scalar

variable {a b : Scalar}

theorem kind?_eq_of_same (h : a.same b = true) : a.kind? = b.kind? := by
  cases a with
  | float x =>
    cases b with
    | float y => cases x <;> cases y <;> simp_all [same, Binary64.same, kind?, Binary64.rank?]
    | _ => simp [same] at h
  | _ => cases b <;> simp_all [same, kind?]

/-- Equality is comparison within one kind. -/
theorem same_iff_compare?_and_kind? :
    a.same b = true ↔ a.compare? b = some .eq ∧ a.kind? = b.kind? := by
  constructor
  · intro h
    have hkind := kind?_eq_of_same h
    exact ⟨(same_of_kind? hkind).1 h, hkind⟩
  · rintro ⟨h, hkind⟩
    exact (same_of_kind? hkind).2 h

end Scalar

namespace Filter

def passes (filter : Filter) (path : Path) (value : Scalar) : Bool :=
  match filter.accepts path value with
  | .ok accepted => accepted
  | .error _ => false

def leading {R : Type} [Record R] (filter : Filter) (path : Path) (records : List R) : Nat :=
  (records.takeWhile fun r => filter.passes path (Record.scalarAt r path)).length

variable {path : Path} {a v : Scalar}

theorem passes_sameAs_iff : (sameAs v).passes path a = true ↔ a.compare? v = some .eq := by
  by_cases hv : v.isNull = true
  · obtain rfl := Scalar.isNull_iff.1 hv
    cases a <;> simp [sameAs, passes, accepts, Scalar.isNull, Scalar.compare?]
  · rw [sameAs, if_neg hv, passes, accepts]
    by_cases ha : a.isNull = true
    · obtain rfl := Scalar.isNull_iff.1 ha
      cases v <;> simp_all [Scalar.isNull, Scalar.compare?]
    · rw [if_neg ha, compareAt]
      cases a.compare? v <;> simp [Except.map]

end Filter

namespace Page

variable {C R : Type} [Record R] (page : Page C R) (v : Scalar) (records : List R)

/-- The equality by which a page measures runs is that of the store's filter within one kind. -/
theorem same_iff_passes (path : Path) (a : Scalar) :
    a.same v = true ↔ (Filter.sameAs v).passes path a = true ∧ a.kind? = v.kind? := by
  rw [Filter.passes_sameAs_iff, Scalar.same_iff_compare?_and_kind?]

theorem runLength_le_leading :
    page.runLength v records ≤ (Filter.sameAs v).leading page.paginator.key.path records :=
  length_takeWhile_le (fun _ h => ((same_iff_passes v _ _).1 h).1) records

theorem runLength_eq_leading_iff :
    page.runLength v records = (Filter.sameAs v).leading page.paginator.key.path records ↔
      ∀ r ∈ records.takeWhile fun r =>
          (Filter.sameAs v).passes page.paginator.key.path (page.scalarOf r),
        (page.scalarOf r).kind? = v.kind? := by
  refine (length_takeWhile_eq_iff (fun _ h => ((same_iff_passes v _ _).1 h).1) records).trans ?_
  refine forall₂_congr fun r hr => ?_
  rw [same_iff_passes v page.paginator.key.path, and_iff_right (List.mem_takeWhile_imp hr)]

theorem runLength_eq_leading {kind : ScalarKind} (hv : v.fits kind = true)
    (hfits : ∀ r ∈ records, (page.scalarOf r).fits kind = true) :
    page.runLength v records = (Filter.sameAs v).leading page.paginator.key.path records := by
  rw [runLength_eq_leading_iff]
  intro r hr
  have hfit := hfits r ((List.takeWhile_prefix _).subset hr)
  have hpass := List.mem_takeWhile_imp hr
  have hcompare := Filter.passes_sameAs_iff.1 hpass
  exact Scalar.kind?_eq_of_same ((Scalar.same_iff_compare? hfit hv).2 hcompare)

end Page

/-- The run that a page measures in front of a list is no longer than what the store's filter for
its scalar lets pass there, and as long if all of that is of the scalar's kind. So it is wherever a
column is of one kind. -/
theorem runLength_leading {C R : Type} [Record R] (page : Page C R) (v : Scalar)
    (records : List R) :
    (∀ a : Scalar, a.same v = true ↔
      (Filter.sameAs v).passes page.paginator.key.path a = true ∧ a.kind? = v.kind?) ∧
    page.runLength v records ≤ (Filter.sameAs v).leading page.paginator.key.path records ∧
    (page.runLength v records = (Filter.sameAs v).leading page.paginator.key.path records ↔
      ∀ r ∈ records.takeWhile fun r =>
          (Filter.sameAs v).passes page.paginator.key.path (page.scalarOf r),
        (page.scalarOf r).kind? = v.kind?) ∧
    ∀ kind : ScalarKind, v.fits kind = true →
      (∀ r ∈ records, (page.scalarOf r).fits kind = true) →
      page.runLength v records = (Filter.sameAs v).leading page.paginator.key.path records :=
  ⟨Page.same_iff_passes v _, page.runLength_le_leading v records,
    page.runLength_eq_leading_iff v records,
    fun _ hv hfits => page.runLength_eq_leading v records hv hfits⟩

/-! ## A mixed column -/

def decimalRankKey : SortKey :=
  { rankKey false with
    route := .single (rankKey false).path ⟨"rank", true, .scalar .decimal⟩
    kind := .decimal }

def decimalOne (places : Fin 3) : Scalar :=
  .decimal ⟨false, tenTo places, places, by revert places; decide, by revert places; decide⟩

/-- Decimals that differ in their places alone are one run, for the page as for the store. -/
theorem runLength_leading_places :
    ∃ table p, Table.orderedBy decimalRankKey
        (ranked [decimalOne 0, decimalOne 2, decimalOne 1]) = .ok table ∧
      Paginator.make table decimalRankKey 2 3 = .ok p ∧
      ∃ page : Page (Table Row) Row, (p.page none).result = .ok page ∧
        page.runLength (decimalOne 1) page.records = 2 ∧
        page.runLength (decimalOne 1) page.records =
          (Filter.sameAs (decimalOne 1)).leading page.paginator.key.path page.records := by
  refine ⟨_, _, rfl, rfl, _, rfl, by decide +kernel, ?_⟩
  refine (runLength_leading _ _ _).2.2.2 .decimal (by decide) ?_
  decide +kernel

/-- Three records whose ranks are equal, the second of them an integer. On the first page, the run of
the third one is of no length, while both records of the page pass the filter for it. The page's
token then leads to the page's own records, and the walk does not go on. -/
theorem exists_runLength_lt_leading :
    (∀ r ∈ ranked [decimalOne 0, .int 1, decimalOne 0],
      ∀ s ∈ ranked [decimalOne 0, .int 1, decimalOne 0],
        (decimalRankKey.scalarOf r).compare? (decimalRankKey.scalarOf s) = some .eq) ∧
    ∃ table p, Table.orderedBy decimalRankKey (ranked [decimalOne 0, .int 1, decimalOne 0]) =
        .ok table ∧
      Paginator.make table decimalRankKey 2 3 = .ok p ∧
      ∃ page : Page (Table Row) Row, (p.page none).result = .ok page ∧
        page.records.map Row.id = [1, 2] ∧ page.nextItem.map page.scalarOf = some (decimalOne 0) ∧
        page.runLength (decimalOne 0) page.records.reverse = 0 ∧
        (Filter.sameAs (decimalOne 0)).leading p.key.path page.records.reverse = 2 ∧
        (p.walk.follow (R := Row) 3).result.items.map (fun item => item.toOption.map
          fun next : Page (Table Row) Row => next.records.map Row.id) =
            [some [1, 2], some [1, 2], some [1, 2]] := by
  refine ⟨by decide +kernel, _, _, rfl, rfl, _, rfl, ?_, ?_, ?_, ?_, ?_⟩
  all_goals decide +kernel

end Keyset
