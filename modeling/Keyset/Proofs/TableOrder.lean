import Keyset.Proofs.RunSort
import Keyset.Proofs.ScalarOrder
import Keyset.Store.Table

/-!
# The order of a table

A descending key turns the order of the scalars round, null included. Records that have a scalar of
the key's kind, or none where the key allows it, are always sorted without a failure.
-/
namespace Keyset

/-- The ranks in the direction of a key. -/
def Place : Bool → Type
  | true => Rankᵒᵈ
  | false => Rank

instance : (descending : Bool) → LinearOrder (Place descending)
  | true => inferInstanceAs (LinearOrder Rankᵒᵈ)
  | false => inferInstanceAs (LinearOrder Rank)

namespace Scalar

def place : (descending : Bool) → Scalar → Place descending
  | true, a => OrderDual.toDual a.rank
  | false, a => a.rank

theorem compare_place (descending : Bool) (a b : Scalar) :
    (if descending then (compare a.rank b.rank).swap else compare a.rank b.rank) =
      compare (a.place descending) (b.place descending) := by
  cases descending with
  | true =>
    rw [if_pos rfl, Std.OrientedOrd.eq_swap (a := a.rank), Ordering.swap_swap]
    rfl
  | false => rfl

theorem place_inj (descending : Bool) {a b : Scalar} :
    a.place descending = b.place descending ↔ a.rank = b.rank := by
  cases descending with
  | true => exact OrderDual.toDual_inj
  | false => exact Iff.rfl

end Scalar

namespace SortKey

variable {R : Type} [Record R]

def scalarOf (key : SortKey) (record : R) : Scalar := Record.scalarAt record key.path

def precedes (key : SortKey) (a b : Scalar) : Bool :=
  a.compare? b == some (if key.descending then .gt else .lt)

/-- Records have scalars that a key is made for: of its kind, or null if it can be null. -/
structure Suits (key : SortKey) (records : List R) : Prop where
  fits : ∀ r ∈ records, (key.scalarOf r).fits key.kind = true
  nullable : ∀ r ∈ records, key.scalarOf r = .null → key.isNullable = true

/-- No record has a scalar that comes before that of an earlier record. -/
def Sorts (key : SortKey) (records : List R) : Prop :=
  records.Pairwise fun a b => key.precedes (key.scalarOf b) (key.scalarOf a) = false

variable {key : SortKey} {kind : ScalarKind} {a b : Scalar}

theorem precedes_iff (ha : a.fits kind = true) (hb : b.fits kind = true) :
    key.precedes a b = true ↔ a.place key.descending < b.place key.descending := by
  rw [← compare_lt_iff_lt, ← Scalar.compare_place, precedes, Scalar.compare?_eq ha hb]
  cases key.descending <;> simp [Ordering.swap_eq_iff_eq_swap]

theorem Suits.perm {xs ys : List R} (h : key.Suits xs) (hperm : xs.Perm ys) : key.Suits ys where
  fits r hr := h.fits r (hperm.mem_iff.2 hr)
  nullable r hr := h.nullable r (hperm.mem_iff.2 hr)

end SortKey

namespace Table

variable {R : Type} [Record R] {key : SortKey} {records : List R}

/-- Where a record stands by its scalar and then by its number. -/
def placeOf (key : SortKey) (record : R) : Place key.descending ×ₗ Int :=
  toLex ((key.scalarOf record).place key.descending, Record.id record)

def answer (key : SortKey) (a b : R) (order : Ordering) : Bool :=
  (if key.descending then order.swap else order).then (compare (Record.id a) (Record.id b)) == .lt

theorem less_eq {a b : R} {order : Ordering}
    (h : (key.scalarOf a).compare? (key.scalarOf b) = some order) :
    less key a b = pure (answer key a b order) := by
  rw [SortKey.scalarOf, SortKey.scalarOf] at h
  simp only [less, compareRecords, h, pure_bind, answer]

theorem orderedBy_of_sort {sorted : List R}
    (h : Sorting.sort (less key) records = pure sorted) : orderedBy key records = .ok ⟨sorted⟩ := by
  rw [orderedBy, h]
  rfl

section

variable {kind : ScalarKind}

theorem less_comparesBy (h : ∀ r ∈ records, (key.scalarOf r).fits kind = true) :
    Sorting.ComparesBy (less key) (placeOf key) records := by
  intro a ha b hb
  rw [less_eq (Scalar.compare?_eq (h a ha) (h b hb)), answer, Scalar.compare_place]
  congr 1
  rw [Bool.eq_iff_iff, beq_iff_eq, decide_eq_true_iff, placeOf, placeOf, Prod.Lex.toLex_lt_toLex,
    Ordering.then_eq_lt, compare_lt_iff_lt, compare_eq_iff_eq, compare_lt_iff_lt]

/-- Records with scalars of one kind have a table, which holds them by their places. -/
theorem exists_orderedBy (h : ∀ r ∈ records, (key.scalarOf r).fits kind = true) :
    ∃ table, orderedBy key records = .ok table ∧ table.records.Perm records ∧
      table.records.Pairwise (placeOf key · ≤ placeOf key ·) := by
  obtain ⟨sorted, hsorted, hperm, hpair⟩ := Sorting.sort_sorts (less_comparesBy h)
  exact ⟨⟨sorted⟩, orderedBy_of_sort hsorted, hperm, hpair⟩

end

variable {table : Table R}

theorem orderedBy_perm (h : key.Suits records) (htable : orderedBy key records = .ok table) :
    table.records.Perm records := by
  obtain ⟨other, hother, hperm, _⟩ := exists_orderedBy h.fits
  rw [htable, Except.ok.injEq] at hother
  rwa [hother]

theorem orderedBy_pairwise (h : key.Suits records)
    (htable : orderedBy key records = .ok table) :
    table.records.Pairwise (placeOf key · ≤ placeOf key ·) := by
  obtain ⟨other, hother, _, hpair⟩ := exists_orderedBy h.fits
  rw [htable, Except.ok.injEq] at hother
  rwa [hother]

theorem orderedBy_sorts (h : key.Suits records) (htable : orderedBy key records = .ok table) :
    key.Sorts table.records := by
  have hsuits := h.perm (orderedBy_perm h htable).symm
  refine (orderedBy_pairwise h htable).imp_of_mem ?_
  intro a b ha hb hle
  rw [Bool.eq_false_iff, Ne, SortKey.precedes_iff (hsuits.fits b hb) (hsuits.fits a ha), not_lt]
  exact Prod.Lex.monotone_fst _ _ hle

end Table

end Keyset
