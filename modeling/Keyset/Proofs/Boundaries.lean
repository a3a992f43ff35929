import Keyset.Page.Neighbours
import Keyset.Proofs.Prefixes
import Keyset.Proofs.TableOrder

/-!
# Where a boundary lies in a table

A scalar splits the records of a sorted table in three: those before it, those that have it, and
those after it. Two counts give the positions of the cuts, and the views of a boundary are what lies
behind the first cut and what lies in front of the second one.
-/
namespace Keyset

namespace Paginator

variable {R : Type} [Record R]

/-- The number of records that come strictly before a scalar. -/
def before (p : Paginator (Table R)) (v : Scalar) : Nat :=
  p.store.records.countP fun r => p.key.precedes (p.key.scalarOf r) v

/-- The number of records that do not come strictly after a scalar. -/
def upTo (p : Paginator (Table R)) (v : Scalar) : Nat :=
  p.store.records.countP fun r => !p.key.precedes v (p.key.scalarOf r)

/-- The records of a paginator suit its key and stand in its order. -/
structure IsSorted (p : Paginator (Table R)) : Prop where
  suits : p.key.Suits p.store.records
  sorts : p.key.Sorts p.store.records

variable {p : Paginator (Table R)} {v : Scalar}

namespace IsSorted

theorem fits_getElem (hp : p.IsSorted) {i : Nat} (hi : i < p.store.records.length) :
    (p.key.scalarOf p.store.records[i]).fits p.key.kind = true :=
  hp.suits.fits _ (List.getElem_mem hi)

theorem comesFirst_before (hp : p.IsSorted) (hv : v.fits p.key.kind = true) :
    ComesFirst (fun r => p.key.precedes (p.key.scalarOf r) v) p.store.records := by
  refine hp.sorts.imp_of_mem ?_
  intro a b ha hb hab hpass
  have hfa := hp.suits.fits a ha
  have hfb := hp.suits.fits b hb
  rw [Bool.eq_false_iff, Ne, SortKey.precedes_iff hfb hfa, not_lt] at hab
  rw [SortKey.precedes_iff hfb hv] at hpass
  rw [SortKey.precedes_iff hfa hv]
  exact lt_of_le_of_lt hab hpass

theorem comesFirst_upTo (hp : p.IsSorted) (hv : v.fits p.key.kind = true) :
    ComesFirst (fun r => !p.key.precedes v (p.key.scalarOf r)) p.store.records := by
  refine hp.sorts.imp_of_mem ?_
  intro a b ha hb hab hpass
  have hfa := hp.suits.fits a ha
  have hfb := hp.suits.fits b hb
  rw [Bool.eq_false_iff, Ne, SortKey.precedes_iff hfb hfa, not_lt] at hab
  rw [Bool.not_eq_true', Bool.eq_false_iff, Ne, SortKey.precedes_iff hv hfb, not_lt] at hpass
  rw [Bool.not_eq_true', Bool.eq_false_iff, Ne, SortKey.precedes_iff hv hfa, not_lt]
  exact le_trans hab hpass

/-- A record has a scalar if it lies between the two cuts. -/
theorem same_getElem_iff (hp : p.IsSorted) (hv : v.fits p.key.kind = true) {i : Nat}
    (hi : i < p.store.records.length) :
    (p.key.scalarOf p.store.records[i]).same v = true ↔ p.before v ≤ i ∧ i < p.upTo v := by
  have hfit := hp.fits_getElem hi
  have hbefore := (hp.comesFirst_before hv).getElem_iff hi
  have hupTo := (hp.comesFirst_upTo hv).getElem_iff hi
  rw [SortKey.precedes_iff hfit hv] at hbefore
  rw [Bool.not_eq_true', Bool.eq_false_iff, Ne, SortKey.precedes_iff hv hfit, not_lt] at hupTo
  rw [Scalar.same_iff hfit hv, ← Scalar.place_inj p.key.descending, before, upTo,
    ← hupTo, ← not_lt, ← hbefore, not_lt, le_antisymm_iff, and_comm]

end IsSorted

theorem upTo_le : p.upTo v ≤ p.store.records.length := List.countP_le_length

private theorem countP_eq_add {α : Type} {all some other : α → Bool} {xs : List α}
    (h : ∀ x ∈ xs, (if all x then 1 else 0) = (if some x then 1 else 0) + (if other x then 1 else 0)) :
    xs.countP all = xs.countP some + xs.countP other := by
  induction xs with
  | nil => rfl
  | cons x xs ih =>
    have hx := h x List.mem_cons_self
    have hxs := ih fun y hy => h y (List.mem_cons_of_mem x hy)
    simp only [List.countP_cons]
    omega

/-- Between the cuts lie as many records as have the scalar. -/
theorem IsSorted.upTo_eq (hp : p.IsSorted) (hv : v.fits p.key.kind = true) :
    p.upTo v = p.before v + p.store.records.countP fun r => (p.key.scalarOf r).same v := by
  apply countP_eq_add
  intro r hr
  have hfit := hp.suits.fits r hr
  have hless := p.key.precedes_iff hfit hv
  have hgreater := p.key.precedes_iff hv hfit
  have hsame := Scalar.same_iff hfit hv
  rw [← Scalar.place_inj p.key.descending] at hsame
  rcases lt_trichotomy ((p.key.scalarOf r).place p.key.descending) (v.place p.key.descending)
    with h | h | h
  · simp [hless, hgreater, hsame, h, h.not_gt, h.ne]
  · simp [hless, hgreater, hsame, h]
  · simp [hless, hgreater, hsame, h, h.not_gt, h.ne']

section

variable {w : Scalar}

theorem IsSorted.before_congr (hp : p.IsSorted) (hv : v.fits p.key.kind = true)
    (hw : w.fits p.key.kind = true) (h : v.same w = true) : p.before v = p.before w := by
  rw [Scalar.same_iff hv hw, ← Scalar.place_inj p.key.descending] at h
  refine List.countP_congr fun r hr => ?_
  have hfit := hp.suits.fits r hr
  rw [SortKey.precedes_iff hfit hv, SortKey.precedes_iff hfit hw, h]

theorem IsSorted.upTo_congr (hp : p.IsSorted) (hv : v.fits p.key.kind = true)
    (hw : w.fits p.key.kind = true) (h : v.same w = true) : p.upTo v = p.upTo w := by
  rw [Scalar.same_iff hv hw, ← Scalar.place_inj p.key.descending] at h
  refine List.countP_congr fun r hr => ?_
  have hfit := hp.suits.fits r hr
  have hcut := Bool.eq_iff_iff.2
    ((SortKey.precedes_iff hv hfit).trans (h ▸ (SortKey.precedes_iff hw hfit).symm))
  rw [hcut]

end

/-! ## The cuts of the table's own scalars -/

namespace IsSorted

variable {i : Nat}

private theorem same_self (hp : p.IsSorted) (hi : i < p.store.records.length) :
    (p.key.scalarOf p.store.records[i]).same (p.key.scalarOf p.store.records[i]) = true :=
  (Scalar.same_iff (hp.fits_getElem hi) (hp.fits_getElem hi)).2 rfl

theorem before_getElem_le (hp : p.IsSorted) (hi : i < p.store.records.length) :
    p.before (p.key.scalarOf p.store.records[i]) ≤ i :=
  ((hp.same_getElem_iff (hp.fits_getElem hi) hi).1 (hp.same_self hi)).1

theorem lt_upTo_getElem (hp : p.IsSorted) (hi : i < p.store.records.length) :
    i < p.upTo (p.key.scalarOf p.store.records[i]) :=
  ((hp.same_getElem_iff (hp.fits_getElem hi) hi).1 (hp.same_self hi)).2

theorem cuts_getElem (hp : p.IsSorted) (hv : v.fits p.key.kind = true)
    (hi : i < p.store.records.length) (hbefore : p.before v ≤ i) (hupTo : i < p.upTo v) :
    p.before (p.key.scalarOf p.store.records[i]) = p.before v ∧
      p.upTo (p.key.scalarOf p.store.records[i]) = p.upTo v := by
  have hfit := hp.fits_getElem hi
  have hsame := (hp.same_getElem_iff hv hi).2 ⟨hbefore, hupTo⟩
  exact ⟨hp.before_congr hfit hv hsame, hp.upTo_congr hfit hv hsame⟩

theorem before_le_before_getElem (hp : p.IsSorted) (hv : v.fits p.key.kind = true)
    (hi : i < p.store.records.length) (h : p.before v ≤ i) :
    p.before v ≤ p.before (p.key.scalarOf p.store.records[i]) := by
  have hfit := hp.fits_getElem hi
  have hle : v.place p.key.descending ≤
      (p.key.scalarOf p.store.records[i]).place p.key.descending := by
    rw [← not_lt, ← SortKey.precedes_iff hfit hv, (hp.comesFirst_before hv).getElem_iff hi, not_lt]
    exact h
  apply List.countP_mono_left
  intro r hr hpass
  have hfr := hp.suits.fits r hr
  rw [SortKey.precedes_iff hfr hv] at hpass
  rw [SortKey.precedes_iff hfr hfit]
  exact lt_of_lt_of_le hpass hle

/-- A record that is not after a scalar has no more up to it. -/
theorem upTo_getElem_le (hp : p.IsSorted) (hv : v.fits p.key.kind = true)
    (hi : i < p.store.records.length) (h : i < p.upTo v) :
    p.upTo (p.key.scalarOf p.store.records[i]) ≤ p.upTo v := by
  have hfit := hp.fits_getElem hi
  have hle : (p.key.scalarOf p.store.records[i]).place p.key.descending ≤
      v.place p.key.descending := by
    have hpass := ((hp.comesFirst_upTo hv).getElem_iff hi).2 h
    rwa [Bool.not_eq_true', Bool.eq_false_iff, Ne, SortKey.precedes_iff hv hfit, not_lt] at hpass
  apply List.countP_mono_left
  intro r hr hpass
  have hfr := hp.suits.fits r hr
  rw [Bool.not_eq_true', Bool.eq_false_iff, Ne, SortKey.precedes_iff hfit hfr, not_lt] at hpass
  rw [Bool.not_eq_true', Bool.eq_false_iff, Ne, SortKey.precedes_iff hv hfr, not_lt]
  exact le_trans hpass hle

end IsSorted

/-! ## The run of a scalar -/

def run (p : Paginator (Table R)) (v : Scalar) : List R :=
  p.store.records.filter fun r => (p.key.scalarOf r).same v

namespace IsSorted

/-- The run of a scalar is what lies between its cuts. -/
theorem run_eq (hp : p.IsSorted) (hv : v.fits p.key.kind = true) :
    p.run v = (p.store.records.take (p.upTo v)).drop (p.before v) :=
  filter_eq_drop_take p.upTo_le fun _ hi => hp.same_getElem_iff hv hi

theorem length_run (hp : p.IsSorted) (hv : v.fits p.key.kind = true) :
    (p.run v).length = p.upTo v - p.before v := by
  rw [hp.run_eq hv, List.length_drop, List.length_take, Nat.min_eq_left p.upTo_le]

theorem getElem?_run (hp : p.IsSorted) (hv : v.fits p.key.kind = true) {i : Nat}
    (hbefore : p.before v ≤ i) (hupTo : i < p.upTo v) :
    (p.run v)[i - p.before v]? = p.store.records[i]? := by
  rw [hp.run_eq hv, List.getElem?_drop, Nat.add_sub_cancel' hbefore, List.getElem?_take,
    if_pos hupTo]

theorem countP_take (hp : p.IsSorted) (hv : v.fits p.key.kind = true) {i : Nat}
    (hupTo : i ≤ p.upTo v) :
    (p.store.records.take i).countP (fun r => (p.key.scalarOf r).same v) = i - p.before v := by
  have hle := p.upTo_le (v := v)
  have hfilter : (p.store.records.take i).filter (fun r => (p.key.scalarOf r).same v) =
      ((p.store.records.take i).take i).drop (p.before v) := by
    apply filter_eq_drop_take
    · rw [List.length_take]
      omega
    · intro j hj
      rw [List.length_take] at hj
      rw [List.getElem_take, hp.same_getElem_iff hv]
      omega
  rw [List.countP_eq_length_filter, hfilter, List.length_drop, List.length_take, List.length_take]
  omega

theorem countP_drop (hp : p.IsSorted) (hv : v.fits p.key.kind = true) {i : Nat}
    (hbefore : p.before v ≤ i) :
    (p.store.records.drop i).countP (fun r => (p.key.scalarOf r).same v) = p.upTo v - i := by
  have hle := p.upTo_le (v := v)
  have hfilter : (p.store.records.drop i).filter (fun r => (p.key.scalarOf r).same v) =
      ((p.store.records.drop i).take (p.upTo v - i)).drop 0 := by
    apply filter_eq_drop_take
    · rw [List.length_drop]
      omega
    · intro j hj
      rw [List.length_drop] at hj
      rw [List.getElem_drop, hp.same_getElem_iff hv]
      omega
  rw [List.countP_eq_length_filter, hfilter, List.length_drop, List.length_take, List.length_drop]
  omega

end IsSorted

/-! ## Selecting -/

theorem keepM_eq_filter {α ε : Type} {test : α → Except ε Bool} {keep : α → Bool}
    {xs : List α} (h : ∀ x ∈ xs, test x = .ok (keep x)) : keepM test xs = .ok (xs.filter keep) := by
  induction xs with
  | nil => rfl
  | cons x xs ih =>
    have hx := h x List.mem_cons_self
    have hxs := ih fun y hy => h y (List.mem_cons_of_mem x hy)
    simp only [keepM, hx, hxs, bind, Except.bind, pure, Except.pure, List.filter_cons]

theorem select_eq (path : Path) (filter : Filter) {keep : R → Bool}
    (h : ∀ r ∈ p.store.records, filter.accepts path (Record.scalarAt r path) = .ok (keep r)) :
    Store.select p.store path filter = .ok ⟨p.store.records.filter keep⟩ := by
  simp only [Store.select, keepM_eq_filter h]
  rfl

private theorem compareAt_eq {kind : ScalarKind} {path : Path} {a b : Scalar}
    (ha : a.fits kind = true) (hb : b.fits kind = true) :
    compareAt path a b = .ok (compare a.rank b.rank) := by
  rw [compareAt, Scalar.compare?_eq ha hb]

theorem accepts_sameAs {kind : ScalarKind} {path : Path} {a : Scalar} (ha : a.fits kind = true)
    (hv : v.fits kind = true) : (Filter.sameAs v).accepts path a = .ok (a.same v) := by
  by_cases hnull : v = .null
  · subst hnull
    cases a <;> rfl
  · have hfilter : Filter.sameAs v = .equal v := by
      rw [Filter.sameAs, if_neg (fun h => hnull (Scalar.isNull_iff.1 h))]
    rw [hfilter, Filter.accepts]
    by_cases ha' : a = .null
    · subst ha'
      cases v with
      | null => exact absurd rfl hnull
      | _ => rfl
    · rw [if_neg (fun h => ha' (Scalar.isNull_iff.1 h)), compareAt_eq ha hv]
      rw [Except.map, Except.ok.injEq, Bool.eq_iff_iff, Scalar.same_iff ha hv, beq_iff_eq,
        compare_eq_iff_eq]

/-- Counting the duplicates of a scalar gives the distance of its cuts. -/
theorem IsSorted.countDuplicates_eq (hp : p.IsSorted) (hv : v.fits p.key.kind = true) :
    p.countDuplicates v = .ok (p.upTo v - p.before v) := by
  have hselect := select_eq (p := p) p.key.path (.sameAs v) fun r hr =>
    accepts_sameAs (hp.suits.fits r hr) hv
  have hlength : p.upTo v - p.before v =
      (p.store.records.filter fun r => (p.key.scalarOf r).same v).length := by
    rw [hp.upTo_eq hv, Nat.add_sub_cancel_left, List.countP_eq_length_filter]
  rw [countDuplicates, hselect, hlength]
  rfl

/-! ## The views of a boundary -/

section

variable {a b : Scalar}

private theorem accepts_atLeast {kind : ScalarKind} {path : Path} (ha : a.fits kind = true)
    (hv : v.fits kind = true) (hnull : v ≠ .null) :
    (Filter.atLeast v).accepts path a = .ok (decide (v.rank ≤ a.rank)) := by
  rw [Filter.accepts]
  by_cases ha' : a = .null
  · have hle : ¬ v.rank ≤ ⊥ := fun h => hnull (Scalar.rank_eq_bot.1 (le_bot_iff.1 h))
    rw [if_pos (Scalar.isNull_iff.2 ha'), ha', Scalar.rank, decide_eq_false hle]
  · rw [if_neg (fun h => ha' (Scalar.isNull_iff.1 h)), compareAt_eq ha hv, Except.map,
      Except.ok.injEq, Bool.eq_iff_iff, bne_iff_ne, decide_eq_true_iff, Ne, compare_lt_iff_lt, not_lt]

private theorem accepts_atMost {kind : ScalarKind} {path : Path} {orNull : Bool}
    (ha : a.fits kind = true) (hv : v.fits kind = true) (horNull : a = .null → orNull = true) :
    (Filter.atMost v orNull).accepts path a = .ok (decide (a.rank ≤ v.rank)) := by
  rw [Filter.accepts]
  by_cases ha' : a = .null
  · rw [if_pos (Scalar.isNull_iff.2 ha'), horNull ha', ha', Scalar.rank, decide_eq_true bot_le]
  · rw [if_neg (fun h => ha' (Scalar.isNull_iff.1 h)), compareAt_eq ha hv, Except.map,
      Except.ok.injEq, Bool.eq_iff_iff, bne_iff_ne, decide_eq_true_iff, Ne, compare_gt_iff_gt, not_lt]

private theorem accepts_isNull {path : Path} :
    Filter.isNull.accepts path a = .ok (decide (a.rank ≤ Scalar.null.rank)) := by
  rw [Filter.accepts, Except.ok.injEq, Bool.eq_iff_iff, decide_eq_true_iff, Scalar.isNull_iff,
    ← Scalar.rank_eq_bot]
  exact le_bot_iff.symm

/-- The view of a boundary has the records whose ranks are on one side of it. -/
theorem IsSorted.view_eq_filter (hp : p.IsSorted) (hv : v.fits p.key.kind = true)
    (downwards : Bool) :
    p.view v downwards = .ok ⟨p.store.records.filter fun r =>
      if downwards then decide ((p.key.scalarOf r).rank ≤ v.rank)
      else decide (v.rank ≤ (p.key.scalarOf r).rank)⟩ := by
  by_cases hnull : v = .null
  · subst hnull
    cases downwards with
    | false =>
      have hall : p.store.records.filter (fun r =>
          decide (Scalar.null.rank ≤ (p.key.scalarOf r).rank)) = p.store.records :=
        List.filter_eq_self.2 fun r _ => decide_eq_true bot_le
      simp only [view, viewFilter, Scalar.isNull, Bool.false_eq_true, if_false, hall]
    | true =>
      have hselect := select_eq (p := p) p.key.path .isNull fun r _ => accepts_isNull
      simp only [view, viewFilter, Scalar.isNull, hselect, if_true, Except.mapError]
      rfl
  · have hnot : v.isNull = false := by
      rw [Bool.eq_false_iff, Ne, Scalar.isNull_iff]
      exact hnull
    cases downwards with
    | false =>
      have hselect := select_eq (p := p) p.key.path (.atLeast v) fun r hr =>
        accepts_atLeast (hp.suits.fits r hr) hv hnull
      simp only [view, viewFilter, hnot, hselect, Except.mapError, Bool.false_eq_true, if_false]
      rfl
    | true =>
      have hselect := select_eq (p := p) p.key.path (.atMost v p.key.isNullable) fun r hr =>
        accepts_atMost (hp.suits.fits r hr) hv (hp.suits.nullable r hr)
      simp only [view, viewFilter, hnot, hselect, Except.mapError, if_true]
      rfl

private theorem not_precedes_eq {key : SortKey} (ha : a.fits key.kind = true)
    (hb : b.fits key.kind = true) :
    (!key.precedes a b) =
      if key.descending then decide (a.rank ≤ b.rank) else decide (b.rank ≤ a.rank) := by
  rw [Bool.eq_iff_iff, SortKey.precedes, Scalar.compare?_eq ha hb]
  cases key.descending with
  | true => simp [compare_gt_iff_gt]
  | false => simp [compare_lt_iff_lt]

end

theorem IsSorted.view_forward (hp : p.IsSorted) (hv : v.fits p.key.kind = true) :
    p.view v p.key.descending = .ok ⟨p.store.records.drop (p.before v)⟩ := by
  rw [hp.view_eq_filter hv, before, ← (hp.comesFirst_before hv).filter_not_eq_drop]
  congr 2
  refine List.filter_congr fun r hr => ?_
  rw [not_precedes_eq (hp.suits.fits r hr) hv]

theorem IsSorted.view_backward (hp : p.IsSorted) (hv : v.fits p.key.kind = true) :
    p.view v (!p.key.descending) = .ok ⟨p.store.records.take (p.upTo v)⟩ := by
  rw [hp.view_eq_filter hv, upTo, ← (hp.comesFirst_upTo hv).filter_eq_take]
  congr 2
  refine List.filter_congr fun r hr => ?_
  rw [not_precedes_eq hv (hp.suits.fits r hr)]
  cases p.key.descending <;> rfl

end Paginator

end Keyset
