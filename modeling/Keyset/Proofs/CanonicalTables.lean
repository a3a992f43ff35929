import Keyset.Proofs.Windows

/-!
# Tables do not depend on the order of their records

Where the numbers of records are unique, no two records have one place. So there is one way to sort
them: any arrangement of the records has the same table, and sorting them by insertion alone gives
it as well.
-/
namespace Keyset

namespace SortKey

variable {R : Type} [Record R]

/-- A record comes before another one by a key: its scalar does, or the two scalars are equal and its
number is smaller, also where the key is descending. -/
def Leads (key : SortKey) (a b : R) : Prop :=
  key.precedes (key.scalarOf a) (key.scalarOf b) = true ∨
    (key.scalarOf a).compare? (key.scalarOf b) = some .eq ∧ Record.id a < Record.id b

/-- Of two records in a row, a null is in the later one if the key is descending, and else in the
earlier one. -/
def NullsAside (key : SortKey) (a b : R) : Prop :=
  if key.descending then key.scalarOf a = .null → key.scalarOf b = .null
  else key.scalarOf b = .null → key.scalarOf a = .null

variable {key : SortKey} {kind : ScalarKind} {a b : R}

theorem leads_iff (ha : (key.scalarOf a).fits kind = true)
    (hb : (key.scalarOf b).fits kind = true) :
    key.Leads a b ↔ Table.placeOf key a < Table.placeOf key b := by
  rw [Leads, precedes_iff ha hb, Scalar.compare?_eq ha hb, Option.some.injEq, compare_eq_iff_eq,
    ← Scalar.place_inj key.descending, Table.placeOf, Table.placeOf, Prod.Lex.toLex_lt_toLex]

theorem Leads.nullsAside (h : key.Leads a b) : key.NullsAside a b := by
  rw [Leads, precedes, beq_iff_eq] at h
  rw [NullsAside]
  split
  · next hdescending =>
    intro ha
    rw [if_pos hdescending, ha] at h
    cases hb : key.scalarOf b <;> simp_all [Scalar.compare?]
  · next hascending =>
    intro hb
    rw [if_neg hascending, hb] at h
    cases ha : key.scalarOf a <;> simp_all [Scalar.compare?]

end SortKey

namespace Table

variable {R : Type} [Record R] {key : SortKey} {kind : ScalarKind} {records xs ys : List R}

/-- Records with unique numbers are strictly sorted by any sort. -/
theorem exists_leads {result : Sorting.Recording Incomparable (List R)}
    (hfits : ∀ r ∈ xs, (key.scalarOf r).fits kind = true) (hids : (xs.map Record.id).Nodup)
    (h : Sorting.Sorts (placeOf key) result xs) :
    ∃ ys, result = pure ys ∧ ys.Perm xs ∧ ys.Pairwise key.Leads := by
  obtain ⟨ys, hrun, hperm, hpair⟩ := h
  have hne : ys.Pairwise fun a b => Record.id a ≠ Record.id b :=
    List.pairwise_map.1 ((hperm.map Record.id).nodup_iff.2 hids)
  refine ⟨ys, hrun, hperm, (hpair.and hne).imp_of_mem ?_⟩
  rintro a b ha hb ⟨hle, hid⟩
  rw [SortKey.leads_iff (hfits a (hperm.mem_iff.1 ha)) (hfits b (hperm.mem_iff.1 hb))]
  exact lt_of_le_of_ne hle fun hplace => hid (congrArg (fun place => (ofLex place).2) hplace)

theorem eq_of_pairwise_leads (hfits : ∀ r ∈ records, (key.scalarOf r).fits kind = true)
    (hxs : xs.Perm records) (hys : ys.Perm records) (hpair : xs.Pairwise key.Leads)
    (hpair' : ys.Pairwise key.Leads) : xs = ys := by
  refine (hxs.trans hys.symm).eq_of_pairwise ?_ hpair hpair'
  intro a b ha hb hab hba
  have ha := hfits a (hxs.mem_iff.1 ha)
  have hb := hfits b (hys.mem_iff.1 hb)
  rw [SortKey.leads_iff ha hb] at hab
  rw [SortKey.leads_iff hb ha] at hba
  exact absurd hab hba.asymm

/-- Records with unique numbers and scalars of one kind have a table. It holds them in the order of
the key and of their numbers, nulls at one end, and it is the table of any arrangement of them,
also if they are sorted by insertion. -/
theorem orderedBy_canonical (hfits : ∀ r ∈ records, (key.scalarOf r).fits kind = true)
    (hids : (records.map Record.id).Nodup) :
    ∃ table, orderedBy key records = .ok table ∧ table.records.Perm records ∧
      table.records.Pairwise key.Leads ∧ table.records.Pairwise key.NullsAside ∧
      ∀ other : List R, other.Perm records →
        orderedBy key other = .ok table ∧
        Sorting.sort (less key) other = pure table.records ∧
        Sorting.insertion (less key) other = pure table.records ∧
        (other.Pairwise key.Leads → other = table.records) := by
  obtain ⟨sorted, hrun, hperm, hleads⟩ :=
    exists_leads hfits hids (Sorting.sort_sorts (less_comparesBy hfits))
  refine ⟨⟨sorted⟩, orderedBy_of_sort hrun, hperm, hleads,
    hleads.imp fun h => h.nullsAside, fun other hother => ?_⟩
  have hfits' : ∀ r ∈ other, (key.scalarOf r).fits kind = true :=
    fun r hr => hfits r (hother.mem_iff.1 hr)
  have hids' : (other.map Record.id).Nodup := (hother.map Record.id).nodup_iff.2 hids
  have hunique {ys : List R} (hys : ys.Perm other) (hpair : ys.Pairwise key.Leads) : ys = sorted :=
    eq_of_pairwise_leads hfits (hys.trans hother) hperm hpair hleads
  have hsame {result : Sorting.Recording Incomparable (List R)}
      (h : Sorting.Sorts (placeOf key) result other) : result = pure sorted := by
    obtain ⟨ys, rfl, hys, hpair⟩ := exists_leads hfits' hids' h
    rw [hunique hys hpair]
  have hsort := hsame (Sorting.sort_sorts (less_comparesBy hfits'))
  have hinsertion := hsame (Sorting.insertion_sorts (less_comparesBy hfits'))
  exact ⟨orderedBy_of_sort hsort, hsort, hinsertion, hunique (.refl other)⟩

/-- No, a lower zero, infinity and a higher zero, highest first: the zeros are equal, so the number
of their records decides. -/
def zeroRanks : List Row :=
  ranked [.null, .float (.ofRatio true 0 1), .float (.infinite false), .float (.ofRatio false 0 1)]

theorem orderedBy_canonical_zeros :
    ∃ table, orderedBy (rankKey true) zeroRanks = .ok table ∧
      table.records.map Row.id = [3, 2, 4, 1] ∧
      orderedBy (rankKey true) zeroRanks.reverse = .ok table := by
  have hfits : ∀ r ∈ zeroRanks, ((rankKey true).scalarOf r).fits .float = true := by decide +kernel
  obtain ⟨table, htable, _, _, _, hother⟩ := orderedBy_canonical hfits (by decide +kernel)
  refine ⟨table, htable, ?_, (hother _ zeroRanks.reverse_perm).1⟩
  have hids : (orderedBy (rankKey true) zeroRanks).map (fun table => table.records.map Row.id) =
      .ok [3, 2, 4, 1] := by decide +kernel
  rw [htable] at hids
  exact Except.ok.inj hids

end Table

end Keyset
