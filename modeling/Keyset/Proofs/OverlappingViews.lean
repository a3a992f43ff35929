import Keyset.Proofs.Windows

/-!
# The two views of a boundary

Forward from a boundary and backward from it, one sees the whole table between them, and twice what
has the boundary's own scalar. All scalars of the column are of one kind, whichever the key names.
-/
namespace Keyset

namespace Paginator

variable {R : Type} [Record R]

/-- The two views of a scalar are the table from one cut on and up to another one. Between the cuts
stands what has the scalar, as many records as are counted of it, and a record there has its place
from one side in the forward view and from the other side in the reversed backward view. -/
structure ViewsMeet (p : Paginator (Table R)) (v : Scalar) (start stop : Nat) : Prop where
  start_le : start ≤ stop
  stop_le : stop ≤ p.store.records.length
  forward : p.view v p.key.descending = .ok ⟨p.store.records.drop start⟩
  backward : p.view v (!p.key.descending) = .ok ⟨p.store.records.take stop⟩
  between : ∀ i (hi : i < p.store.records.length),
    (p.key.scalarOf p.store.records[i]).compare? v = some .eq ↔ start ≤ i ∧ i < stop
  overlap : (p.store.records.take stop).drop start =
    p.store.records.filter fun r => (p.key.scalarOf r).compare? v == some .eq
  count : p.countDuplicates v = .ok (stop - start)
  mirrored : ∀ i < stop - start, (p.store.records.drop start)[i]? =
    (p.store.records.take stop).reverse[stop - start - 1 - i]?

variable {p : Paginator (Table R)} {v : Scalar}

theorem getElem?_reverse_take {α : Type} {xs : List α} {start stop i : Nat}
    (hstop : stop ≤ xs.length) (hi : i < stop - start) :
    (xs.drop start)[i]? = (xs.take stop).reverse[stop - start - 1 - i]? := by
  have hlength : (xs.take stop).length = stop := List.length_take_of_le hstop
  have hplace : stop - 1 - (stop - start - 1 - i) = start + i := by omega
  rw [List.getElem?_reverse (by omega), hlength, hplace, List.getElem?_take,
    if_pos (by omega), List.getElem?_drop]

theorem IsSorted.start_le_stop (hp : p.IsSorted) (hv : v.fits p.key.kind = true) :
    p.before v ≤ p.upTo v := by
  rw [hp.upTo_eq hv]
  exact Nat.le_add_right _ _

theorem IsSorted.viewsMeet (hp : p.IsSorted) (hv : v.fits p.key.kind = true) :
    p.ViewsMeet v (p.before v) (p.upTo v) where
  start_le := hp.start_le_stop hv
  stop_le := p.upTo_le
  forward := hp.view_forward hv
  backward := hp.view_backward hv
  between i hi := by
    rw [← Scalar.same_iff_compare? (hp.fits_getElem hi) hv, hp.same_getElem_iff hv hi]
  overlap := by
    rw [← hp.run_eq hv, run]
    refine List.filter_congr fun r hr => ?_
    rw [Bool.eq_iff_iff, beq_iff_eq, Scalar.same_iff_compare? (hp.suits.fits r hr) hv]
  count := hp.countDuplicates_eq hv
  mirrored _ hi := getElem?_reverse_take p.upTo_le hi

def ofKind (p : Paginator (Table R)) (kind : ScalarKind) : Paginator (Table R) :=
  { p with key := { p.key with kind := kind } }

/-- Neither the views nor the count ask for the kind of the key. -/
theorem ViewsMeet.of_ofKind {kind : ScalarKind} {start stop : Nat}
    (h : (p.ofKind kind).ViewsMeet v start stop) : p.ViewsMeet v start stop :=
  ⟨h.start_le, h.stop_le, h.forward, h.backward, h.between, h.overlap, h.count, h.mirrored⟩

end Paginator

/-- In every sorted column of one kind, and for every scalar of this kind, found in the column or
not, the forward view is what follows one cut, the backward view is what precedes another one, and
what they share is what has the scalar. -/
theorem views_meet {R : Type} [Record R] {key : SortKey} {kind : ScalarKind} {records : List R}
    {perPage : Nat} (hfits : ∀ r ∈ records, (key.scalarOf r).fits kind = true)
    (hnullable : ∀ r ∈ records, key.scalarOf r = .null → key.isNullable = true)
    (hper : 1 < perPage) (count : Nat) :
    ∃ table p, Table.orderedBy key records = .ok table ∧
      Paginator.make table key perPage count = .ok p ∧
      ∀ v : Scalar, v.fits kind = true → ∃ start stop, p.ViewsMeet v start stop := by
  have hsuits : SortKey.Suits { key with kind := kind } records := ⟨hfits, hnullable⟩
  obtain ⟨table, htable, hperm, _⟩ := Table.exists_orderedBy hfits
  refine ⟨table, _, htable, dif_pos hper, fun v hv => ?_⟩
  have hsorted : (Paginator.ofKind (R := R) ⟨table, key, perPage, count, hper, wordCeiling⟩
      kind).IsSorted :=
    ⟨hsuits.perm hperm.symm, Table.orderedBy_sorts hsuits htable⟩
  exact ⟨_, _, (hsorted.viewsMeet hv).of_ofKind⟩

/-- Texts in a column whose key names integers, highest first and nulls last. No record has the
scalar of the boundary. -/
theorem views_meet_absent :
    ∃ table p, Table.orderedBy (rankKey true) (ranked [.text "b", .null, .text "d"]) = .ok table ∧
      Paginator.make table (rankKey true) 2 3 = .ok p ∧
      ∃ start stop, p.ViewsMeet (.text "c") start stop := by
  obtain ⟨table, p, htable, hmake, hmeet⟩ := @views_meet Row _ (rankKey true) .text
    (ranked [.text "b", .null, .text "d"]) 2 (by decide) (by decide) (by decide) 3
  exact ⟨table, p, htable, hmake, hmeet (.text "c") (by decide)⟩

end Keyset
