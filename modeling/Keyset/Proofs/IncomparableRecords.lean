import Keyset.Proofs.Camps
import Keyset.Proofs.MixedRuns
import Keyset.Proofs.SortFailures

/-!
# Which records have no table

Sorting records a failure only if it meets two records that cannot be compared, and it need not meet
all pairs. A sort that does not meet a pair cannot know its order: if the camps of the two records
can be turned round without another answer of the test, the sorted list would have to be sorted both
ways. So there is no table with any two records that cannot be compared, however the records are
arranged, unless integers stand between decimals and numbers of double precision.

Which failure it is depends on the number of records. Insertion comes to an end whatever the test
answers, so a few records always have a failure recorded. With more of them the sort may break off,
as two records that cannot be compared count as equal and then need not be in any order with others.
-/
namespace Keyset

namespace Filter

variable {filter : Filter} {path : Path} {a : Scalar}

def bound? : Filter → Option Scalar
  | .isNull => none
  | .atLeast bound => some bound
  | .atMost bound _ => some bound
  | .equal value => some value

theorem accepts_eq_passes (h : ∀ v ∈ filter.bound?, (a.compare? v).isSome) :
    filter.accepts path a = .ok (filter.passes path a) := by
  have haccepts : ∃ accepted, filter.accepts path a = .ok accepted := by
    cases filter with
    | isNull => exact ⟨_, rfl⟩
    | _ =>
      obtain ⟨order, horder⟩ := Option.isSome_iff_exists.1 (h _ rfl)
      simp only [accepts, compareAt, horder]
      split
      · exact ⟨_, rfl⟩
      · exact ⟨_, rfl⟩
  obtain ⟨accepted, haccepts⟩ := haccepts
  rw [passes, haccepts]

end Filter

/-- Records whose scalars comparison puts in an order. A record with NaN is among them only beside
another one whose scalar is not null. -/
structure SortKey.Consistent {R : Type} [Record R] (key : SortKey) (records : List R) : Prop where
  coherent : Scalar.Coherent (records.map key.scalarOf)
  nan : ∀ a ∈ records, key.scalarOf a = .float .nan →
    ∃ b ∈ records, key.scalarOf b ≠ .null ∧ Record.id b ≠ Record.id a

theorem SortKey.Consistent.perm {R : Type} [Record R] {key : SortKey} {xs ys : List R}
    (h : key.Consistent xs) (hperm : xs.Perm ys) : key.Consistent ys where
  coherent := h.coherent.perm (hperm.map _)
  nan a ha hnan := by
    obtain ⟨b, hb, hne⟩ := h.nan a (hperm.mem_iff.2 ha) hnan
    exact ⟨b, hperm.mem_iff.1 hb, hne⟩

namespace Table

variable {R : Type} [Record R] {key : SortKey} {records : List R} {a b : R}

/-- A failure is that of two records of a list that cannot be compared. -/
def Meets (key : SortKey) (records : List R) (e : Incomparable) : Prop :=
  ∃ a ∈ records, ∃ b ∈ records, e = ⟨key.path, key.scalarOf a, key.scalarOf b⟩ ∧
    (key.scalarOf a).compare? (key.scalarOf b) = none

theorem run_less (h : (key.scalarOf a).compare? (key.scalarOf b) = none)
    (failure : Option Incomparable) :
    (less key a b).run failure = .ok (answer key a b .eq,
      failure.or (some ⟨key.path, key.scalarOf a, key.scalarOf b⟩)) := by
  rw [SortKey.scalarOf, SortKey.scalarOf] at h
  simp only [less, compareRecords, h]
  rfl

theorem less_completes (a b : R) : Sorting.Completes (less key a b) := by
  cases hab : (key.scalarOf a).compare? (key.scalarOf b) with
  | some order =>
    rw [less_eq hab]
    exact .pure _
  | none => exact fun failure => ⟨_, run_less hab failure⟩

/-! ## What a sort comes to -/

theorem sort_of_orderedBy_eq_ok {table : Table R} (h : orderedBy key records = .ok table) :
    (Sorting.sort (less key) records).run none = .ok (table.records, none) := by
  unfold orderedBy at h
  split at h
  · next hrun =>
    cases h
    exact hrun
  · cases h
  · cases h

theorem sort_of_orderedBy_eq_incomparable {e : Incomparable}
    (h : orderedBy key records = .error (.incomparable e)) :
    ∃ sorted, (Sorting.sort (less key) records).run none = .ok (sorted, some e) := by
  unfold orderedBy at h
  split at h
  · cases h
  · next hrun =>
    cases h
    exact ⟨_, hrun⟩
  · cases h

theorem sort_of_orderedBy_eq_disorder (h : orderedBy key records = .error .disorder) :
    ∃ d, (Sorting.sort (less key) records).run none = .error d := by
  unfold orderedBy at h
  split at h
  · cases h
  · cases h
  · next hrun => exact ⟨_, hrun⟩

theorem orderedBy_ne_disorder (h : records.length ≤ 20) :
    orderedBy key records ≠ .error .disorder := by
  intro hdisorder
  obtain ⟨d, hrun⟩ := sort_of_orderedBy_eq_disorder hdisorder
  have hless (a b : R) : Sorting.Completes (less key a b) := less_completes a b
  obtain ⟨result, hresult⟩ := Sorting.insertion_completes hless records none
  rw [Sorting.sort, if_pos h, hresult] at hrun
  cases hrun

theorem followsOn_less {test : R → R → Except Sorting.Disorder Bool}
    (h : ∀ a ∈ records, ∀ b ∈ records, ∀ order,
      (key.scalarOf a).compare? (key.scalarOf b) = some order →
        test a b = .ok (answer key a b order)) :
    Sorting.FollowsOn (Meets key records) (less key) test records := by
  intro a ha b hb
  cases hab : (key.scalarOf a).compare? (key.scalarOf b) with
  | some order =>
    rw [less_eq hab, h a ha b hb order hab]
    exact .same trivial
  | none =>
    have hmeets : Meets key records ⟨key.path, key.scalarOf a, key.scalarOf b⟩ :=
      ⟨a, ha, b, hb, rfl, hab⟩
    intro failure hfailure
    rw [run_less hab]
    cases failure with
    | none => exact .recorded trivial hmeets rfl _
    | some e => exact .recorded trivial (hfailure e rfl) rfl _

theorem meets_of_orderedBy {e : Incomparable}
    (h : orderedBy key records = .error (.incomparable e)) : Meets key records e := by
  have htest : Sorting.FollowsOn (Meets key records) (less key)
      (fun a b => .ok (((key.scalarOf a).compare? (key.scalarOf b)).any (answer key a b)))
      records :=
    followsOn_less fun a _ b _ order hab => by rw [hab, Option.any_some]
  obtain ⟨sorted, hrun⟩ := sort_of_orderedBy_eq_incomparable h
  exact (Sorting.sort_follows htest (List.Subset.refl _)).allowed_of_ok hrun

/-- A table is sorted by every rank that gives the answers of the test, and without a table two
records cannot be compared. -/
theorem orderedBy_cases {β : Type} [LinearOrder β] (rank : R → β)
    (h : ∀ a ∈ records, ∀ b ∈ records, ∀ order,
      (key.scalarOf a).compare? (key.scalarOf b) = some order →
        decide (rank a < rank b) = answer key a b order) :
    (∀ table, orderedBy key records = .ok table →
      table.records.Perm records ∧ table.records.Pairwise (rank · ≤ rank ·)) ∧
    ∀ failure, orderedBy key records = .error failure → ∃ e, Meets key records e := by
  have htest : Sorting.FollowsOn (Meets key records) (less key)
      (fun a b => .ok (decide (rank a < rank b))) records :=
    followsOn_less fun a ha b hb order hab => congrArg Except.ok (h a ha b hb order hab)
  have hfollows := Sorting.sort_follows htest (List.Subset.refl _)
  obtain ⟨sorted, hsorted, hperm, hpair⟩ : Sorting.Sorts rank
      (Sorting.sort (fun a b => (.ok (decide (rank a < rank b)) : Except Sorting.Disorder Bool))
        records) records := Sorting.sort_sorts fun _ _ _ _ => rfl
  constructor
  · intro table htable
    have hrun := hfollows.eq_of_ok (sort_of_orderedBy_eq_ok htable)
    rw [hsorted] at hrun
    obtain rfl := Except.ok.inj hrun
    exact ⟨hperm, hpair⟩
  · intro failure hfailure
    cases failure with
    | incomparable e => exact ⟨e, meets_of_orderedBy hfailure⟩
    | disorder =>
      obtain ⟨d, hrun⟩ := sort_of_orderedBy_eq_disorder hfailure
      rcases hfollows.of_error hrun with hrun | hmeets
      · rw [hsorted] at hrun
        cases hrun
      · exact hmeets

/-! ## Camps turned round -/

/-- Where a record stands by its camp, by its scalar in the camp and by its number. If the camps are
turned round, so are the records with NaN. -/
def standing (key : SortKey) (ks : List Scalar) (turned : Bool) (r : R) : Int ×ₗ Int ×ₗ Int :=
  let direction : Int := if key.descending then -1 else 1
  let number := if key.scalarOf r = .float .nan ∧ turned then -Record.id r else Record.id r
  toLex (direction * (key.scalarOf r).campPlace ks turned,
    toLex (direction * (key.scalarOf r).height ks, number))

variable {ks : List Scalar}

theorem standing_answer (h : Scalar.Coherent (records.map key.scalarOf)) (turned : Bool)
    (ha : a ∈ records) (hb : b ∈ records) {order : Ordering}
    (hab : (key.scalarOf a).compare? (key.scalarOf b) = some order) :
    decide (standing key (records.map key.scalarOf) turned a <
      standing key (records.map key.scalarOf) turned b) = answer key a b order := by
  have hka := List.mem_map_of_mem (f := key.scalarOf) ha
  have hkb := List.mem_map_of_mem (f := key.scalarOf) hb
  have hba := Scalar.compare?_swap (key.scalarOf a) (key.scalarOf b)
  rw [hab] at hba
  rw [Bool.eq_iff_iff, decide_eq_true_iff, standing, standing, Prod.Lex.toLex_lt_toLex,
    Prod.Lex.toLex_lt_toLex, answer, beq_iff_eq, Ordering.then_eq_lt, compare_lt_iff_lt]
  cases order with
  | lt =>
    have hplace := h.lt_of_compare? turned hka hkb hab
    cases hd : key.descending <;> simp
    · omega
    · omega
  | gt =>
    have hplace := h.lt_of_compare? turned hkb hka hba
    cases hd : key.descending <;> simp
    · omega
    · omega
  | eq =>
    have hplace := h.eq_of_compare? turned hka hkb hab
    have hnan := Scalar.ne_nan_of_compare? hab
    have hnan' := Scalar.ne_nan_of_compare? hba
    cases hd : key.descending <;> simp [hplace, hnan, hnan']

theorem standing_turned (h : Scalar.Coherent (records.map key.scalarOf)) (ha : a ∈ records)
    (hb : b ∈ records) (hab : (key.scalarOf a).compare? (key.scalarOf b) = none)
    (hnan : key.scalarOf a = .float .nan → key.scalarOf b = .float .nan →
      Record.id a ≠ Record.id b) :
    ∃ turned, standing key (records.map key.scalarOf) turned a <
        standing key (records.map key.scalarOf) turned b ∧
      standing key (records.map key.scalarOf) (!turned) b <
        standing key (records.map key.scalarOf) (!turned) a := by
  have hka := List.mem_map_of_mem (f := key.scalarOf) ha
  have hkb := List.mem_map_of_mem (f := key.scalarOf) hb
  simp only [standing, Prod.Lex.toLex_lt_toLex]
  by_cases hboth : key.scalarOf a = .float .nan ∧ key.scalarOf b = .float .nan
  · have hne := hnan hboth.1 hboth.2
    rw [hboth.1, hboth.2]
    rcases lt_or_gt_of_ne hne with hlt | hlt
    · exact ⟨false, by simp [hlt]⟩
    · exact ⟨true, by simp [hlt]⟩
  · have hplace := h.turned_of_compare? hka hkb hab (by tauto)
    cases hd : key.descending
    · rcases hplace with hplace | hplace
      · exact ⟨false, by simp [hplace]⟩
      · exact ⟨true, by simp [hplace]⟩
    · rcases hplace with hplace | hplace
      · exact ⟨true, by simp [hplace]⟩
      · exact ⟨false, by simp [hplace]⟩

theorem le_of_pairwise {α β γ : Type} [LinearOrder β] [LinearOrder γ] {rank : α → β}
    {rank' : α → γ} {xs : List α} {a b : α} (hpair : xs.Pairwise (rank · ≤ rank ·))
    (hpair' : xs.Pairwise (rank' · ≤ rank' ·)) (ha : a ∈ xs) (hb : b ∈ xs)
    (hlt : rank a < rank b) : rank' a ≤ rank' b := by
  obtain ⟨front, back, rfl⟩ := List.append_of_mem ha
  rw [List.pairwise_append, List.pairwise_cons] at hpair hpair'
  rcases List.mem_append.1 hb with hb | hb
  · exact absurd (hpair.2.2 b hb a List.mem_cons_self) (not_le.2 hlt)
  · rcases List.mem_cons.1 hb with rfl | hb
    · exact le_rfl
    · exact hpair'.2.1.1 b hb

theorem exists_error_of_turned (h : Scalar.Coherent (records.map key.scalarOf)) (ha : a ∈ records)
    (hb : b ∈ records) (hab : (key.scalarOf a).compare? (key.scalarOf b) = none)
    (hnan : key.scalarOf a = .float .nan → key.scalarOf b = .float .nan →
      Record.id a ≠ Record.id b) : ∃ failure, orderedBy key records = .error failure := by
  cases htable : orderedBy key records with
  | error failure => exact ⟨failure, rfl⟩
  | ok table =>
    obtain ⟨turned, hlt, hlt'⟩ := standing_turned h ha hb hab hnan
    obtain ⟨hperm, hpair⟩ := (orderedBy_cases (standing key _ turned)
      fun a ha b hb order => standing_answer h turned ha hb).1 table htable
    obtain ⟨_, hpair'⟩ := (orderedBy_cases (standing key _ (!turned))
      fun a ha b hb order => standing_answer h (!turned) ha hb).1 table htable
    have hle := le_of_pairwise hpair hpair' (hperm.mem_iff.2 ha) (hperm.mem_iff.2 hb) hlt
    exact absurd hle (not_le.2 hlt')

theorem exists_error (h : key.Consistent records) (ha : a ∈ records) (hb : b ∈ records)
    (hab : (key.scalarOf a).compare? (key.scalarOf b) = none) :
    ∃ failure, orderedBy key records = .error failure := by
  by_cases hboth : key.scalarOf a = .float .nan ∧ Record.id a = Record.id b
  · obtain ⟨c, hc, hnull, hid⟩ := h.nan a ha hboth.1
    refine exists_error_of_turned h.coherent ha hc ?_ fun _ _ hid' => hid hid'.symm
    rw [hboth.1, Scalar.compare?_nan hnull]
  · exact exists_error_of_turned h.coherent ha hb hab fun hnan _ hid => hboth ⟨hnan, hid⟩

/-- A failure that is recorded is that of two records that cannot be compared, and with up to 20
records there is no other one. With consistent records there is no table just if two of them cannot
be compared, whatever their arrangement, and a table can be asked for the scalar of each of its
records. -/
theorem orderedBy_fails_iff (key : SortKey) (records : List R) :
    (∀ e, orderedBy key records = .error (.incomparable e) → Meets key records e) ∧
    (records.length ≤ 20 → orderedBy key records ≠ .error .disorder) ∧
    (key.Consistent records →
      ((∃ failure, orderedBy key records = .error failure) ↔
        ∃ a ∈ records, ∃ b ∈ records, (key.scalarOf a).compare? (key.scalarOf b) = none) ∧
      (∀ other : List R, other.Perm records →
        ((∃ failure, orderedBy key other = .error failure) ↔
          ∃ failure, orderedBy key records = .error failure)) ∧
      ∀ table, orderedBy key records = .ok table → table.records.Perm records ∧
        ∀ filter : Filter, (∀ v ∈ filter.bound?, ∃ r ∈ table.records, key.scalarOf r = v) →
          Store.select table key.path filter = .ok ⟨table.records.filter fun r =>
            filter.passes key.path (key.scalarOf r)⟩) := by
  refine ⟨fun e => meets_of_orderedBy, orderedBy_ne_disorder, fun h => ?_⟩
  have hcases {xs : List R} (hxs : key.Consistent xs) := orderedBy_cases (standing key _ false)
    fun a ha b hb order => standing_answer hxs.coherent false ha hb
  have hiff {xs : List R} (hxs : key.Consistent xs) :
      (∃ failure, orderedBy key xs = .error failure) ↔
        ∃ a ∈ xs, ∃ b ∈ xs, (key.scalarOf a).compare? (key.scalarOf b) = none := by
    constructor
    · rintro ⟨failure, hfailure⟩
      obtain ⟨_, a, ha, b, hb, _, hab⟩ := (hcases hxs).2 failure hfailure
      exact ⟨a, ha, b, hb, hab⟩
    · rintro ⟨a, ha, b, hb, hab⟩
      exact exists_error hxs ha hb hab
  refine ⟨hiff h, fun other hother => ?_, fun table htable => ?_⟩
  · rw [hiff h, hiff (h.perm hother.symm)]
    simp only [hother.mem_iff]
  · obtain ⟨hperm, _⟩ := (hcases h).1 table htable
    refine ⟨hperm, fun filter hbound => ?_⟩
    have haccepts : ∀ r ∈ table.records, filter.accepts key.path (Record.scalarAt r key.path) =
        .ok (filter.passes key.path (key.scalarOf r)) := by
      intro r hr
      refine Filter.accepts_eq_passes fun v hv => ?_
      obtain ⟨s, hs, rfl⟩ := hbound v hv
      refine Option.isSome_iff_ne_none.2 fun hnone => ?_
      obtain ⟨failure, hfailure⟩ :=
        (hiff h).2 ⟨r, hperm.mem_iff.1 hr, s, hperm.mem_iff.1 hs, hnone⟩
      rw [htable] at hfailure
      cases hfailure
    simp only [Store.select, Paginator.keepM_eq_filter haccepts]
    rfl

/-- Two numbers, no rank and a text, in two arrangements. The failure is a recorded one. -/
theorem orderedBy_fails_text :
    (∃ e, orderedBy (rankKey false) (ranked [.int 2, .null, .text "b", .float (.ofInt 1)]) =
      .error (.incomparable e)) ∧
    ∃ failure, orderedBy (rankKey false)
      (ranked [.int 2, .null, .text "b", .float (.ofInt 1)]).reverse = .error failure := by
  have hscalars : (ranked [.int 2, .null, .text "b", .float (.ofInt 1)]).map
      (rankKey false).scalarOf = [.int 2, .null, .text "b", .float (.ofInt 1)] := by
    decide +kernel
  have hconsistent :
      (rankKey false).Consistent (ranked [.int 2, .null, .text "b", .float (.ofInt 1)]) := by
    refine ⟨Scalar.coherent_of_natAbs_le (by decide +kernel) fun n hn => ?_, by decide +kernel⟩
    rw [hscalars] at hn
    obtain rfl : n = 2 := by simpa using hn
    decide
  obtain ⟨_, hne, hfails⟩ := orderedBy_fails_iff (rankKey false)
    (ranked [.int 2, .null, .text "b", .float (.ofInt 1)])
  obtain ⟨hiff, hother, _⟩ := hfails hconsistent
  have herror := hiff.2 (by decide +kernel)
  refine ⟨?_, (hother _ (List.reverse_perm _)).2 herror⟩
  obtain ⟨failure, hfailure⟩ := herror
  cases failure with
  | incomparable e => exact ⟨e, hfailure⟩
  | disorder => exact absurd hfailure (hne (by decide))

/-- Numbers that fall from 20 to 0, and a text in the place of 10. -/
def brokenRanks : List Row :=
  ranked ((List.range 21).map fun i => if i = 10 then .text "b" else .int (Int64.ofNat (20 - i)))

-- The text counts as equal to all the numbers, so the two sides of a merge take it at different
-- places and do not meet.
example : orderedBy (rankKey false) brokenRanks = .error .disorder := by decide +kernel

/-- A decimal, an integer and a number of double precision, each greater than the one before. -/
def bridgedRanks : List Row := ranked [.decimal (.ofInt64 1), .int 5, .float (.ofInt 9)]

/-- In this arrangement only neighbours are compared, so there is a table, although its first and
its last record cannot be compared. In the other direction it fails, and so does the filter for the
first record. -/
theorem exists_orderedBy_incomparable :
    orderedBy (rankKey false) bridgedRanks = .ok ⟨bridgedRanks⟩ ∧
      (Scalar.decimal (.ofInt64 1)).compare? (.float (.ofInt 9)) = none ∧
      orderedBy (rankKey false) bridgedRanks.reverse =
        .error (.incomparable ⟨(rankKey false).path, .decimal (.ofInt64 1), .float (.ofInt 9)⟩) ∧
      Store.select (⟨bridgedRanks⟩ : Table Row) (rankKey false).path
          (.sameAs (.decimal (.ofInt64 1))) =
        .error ⟨(rankKey false).path, .float (.ofInt 9), .decimal (.ofInt64 1)⟩ := by
  decide +kernel

end Table

end Keyset
