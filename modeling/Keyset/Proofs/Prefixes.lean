import Mathlib

/-!
# Tests that the first elements of a list pass

In a sorted list the elements below a bound come first. Where a test is passed by the first elements
alone, selecting by it is cutting at the number of those that pass.
-/
namespace Keyset

variable {α : Type}

/-- Whatever passes the test comes before whatever does not. -/
def ComesFirst (test : α → Bool) (xs : List α) : Prop :=
  xs.Pairwise fun a b => test b = true → test a = true

namespace ComesFirst

variable {test : α → Bool} {xs : List α}

private theorem countP_tail_eq_zero {x : α} (h : ComesFirst test (x :: xs)) (hx : ¬ test x = true) :
    xs.countP test = 0 := by
  rw [List.countP_eq_zero]
  intro y hy hpass
  exact hx ((List.pairwise_cons.1 h).1 y hy hpass)

theorem filter_eq_take (h : ComesFirst test xs) : xs.filter test = xs.take (xs.countP test) := by
  induction xs with
  | nil => rfl
  | cons x xs ih =>
    by_cases hx : test x = true
    · rw [List.filter_cons_of_pos hx, List.countP_cons_of_pos hx, List.take_succ_cons,
        ih (List.pairwise_cons.1 h).2]
    · have hzero := countP_tail_eq_zero h hx
      rw [List.filter_cons_of_neg hx, List.countP_cons_of_neg hx, hzero, List.take_zero,
        ← List.length_eq_zero_iff, ← List.countP_eq_length_filter, hzero]

theorem filter_not_eq_drop (h : ComesFirst test xs) :
    xs.filter (fun a => !test a) = xs.drop (xs.countP test) := by
  induction xs with
  | nil => rfl
  | cons x xs ih =>
    by_cases hx : test x = true
    · rw [List.filter_cons_of_neg (by simp [hx]), List.countP_cons_of_pos hx, List.drop_succ_cons,
        ih (List.pairwise_cons.1 h).2]
    · have hzero := countP_tail_eq_zero h hx
      have htail := ih (List.pairwise_cons.1 h).2
      rw [List.filter_cons_of_pos (by simp [hx]), List.countP_cons_of_neg hx, htail, hzero]
      rfl

theorem getElem_iff (h : ComesFirst test xs) {i : Nat} (hi : i < xs.length) :
    test xs[i] = true ↔ i < xs.countP test := by
  induction xs generalizing i with
  | nil => cases hi
  | cons x xs ih =>
    by_cases hx : test x = true
    · rw [List.countP_cons_of_pos hx]
      cases i with
      | zero => simp [hx]
      | succ i =>
        have hlt : i < xs.length := by simpa using hi
        rw [List.getElem_cons_succ, ih (List.pairwise_cons.1 h).2 hlt]
        omega
    · rw [List.countP_cons_of_neg hx, countP_tail_eq_zero h hx]
      cases i with
      | zero => simp [hx]
      | succ i =>
        have hmem : (x :: xs)[i + 1] ∈ xs := by simp
        have hfail : ¬ test (x :: xs)[i + 1] = true :=
          fun hpass => hx ((List.pairwise_cons.1 h).1 _ hmem hpass)
        simpa using hfail

end ComesFirst

/-- Where the elements that pass are those of one stretch, selecting is cutting it out. -/
theorem filter_eq_drop_take {test : α → Bool} {xs : List α} {start stop : Nat}
    (hstop : stop ≤ xs.length)
    (h : ∀ i (hi : i < xs.length), test xs[i] = true ↔ start ≤ i ∧ i < stop) :
    xs.filter test = (xs.take stop).drop start := by
  induction xs generalizing start stop with
  | nil => simp
  | cons x xs ih =>
    have hhead := h 0 (by simp)
    rw [List.getElem_cons_zero] at hhead
    have hrest : xs.filter test = (xs.take (stop - 1)).drop (start - 1) := by
      apply ih
      · rw [List.length_cons] at hstop
        omega
      · intro i hi
        have hnext := h (i + 1) (by simpa using hi)
        rw [List.getElem_cons_succ] at hnext
        rw [hnext]
        omega
    by_cases hx : test x = true
    · have hfirst := hhead.1 hx
      obtain ⟨rest, rfl⟩ := Nat.exists_eq_succ_of_ne_zero (Nat.ne_of_gt hfirst.2)
      obtain rfl := Nat.le_zero.1 hfirst.1
      rw [List.filter_cons_of_pos hx, hrest]
      rfl
    · rw [List.filter_cons_of_neg hx, hrest]
      rw [hhead] at hx
      cases stop with
      | zero => simp
      | succ stop =>
        obtain ⟨skip, rfl⟩ := Nat.exists_eq_succ_of_ne_zero (n := start) (by omega)
        rfl

/-- The elements up to the first one that fails are as many as pass in front of it. -/
theorem length_takeWhile_eq {test : α → Bool} {xs : List α} {k : Nat} (hk : k ≤ xs.length)
    (hpass : ∀ i (hi : i < xs.length), i < k → test xs[i] = true)
    (hfail : ∀ hk : k < xs.length, test xs[k] = false) : (xs.takeWhile test).length = k := by
  induction xs generalizing k with
  | nil => simpa using (Nat.le_zero.1 hk).symm
  | cons x xs ih =>
    cases k with
    | zero =>
      have hx : ¬ test x = true := by
        have hlt : 0 < (x :: xs).length := by simp
        simpa using hfail hlt
      rw [List.takeWhile_cons_of_neg hx, List.length_nil]
    | succ k =>
      have hx : test x = true := hpass 0 (by simp) (by omega)
      have hrest : (xs.takeWhile test).length = k := by
        apply ih (by simpa using hk)
        · intro i hi hik
          exact hpass (i + 1) (by simpa using hi) (by omega)
        · intro hlt
          exact hfail (by simpa using hlt)
      rw [List.takeWhile_cons_of_pos hx, List.length_cons, hrest]

theorem length_takeWhile_le {test weaker : α → Bool} (h : ∀ x, test x = true → weaker x = true)
    (xs : List α) : (xs.takeWhile test).length ≤ (xs.takeWhile weaker).length := by
  induction xs with
  | nil => exact le_rfl
  | cons x xs ih =>
    by_cases hx : test x = true
    · rw [List.takeWhile_cons_of_pos hx, List.takeWhile_cons_of_pos (h x hx)]
      exact Nat.succ_le_succ ih
    · rw [List.takeWhile_cons_of_neg hx]
      exact Nat.zero_le _

theorem length_takeWhile_eq_iff {test weaker : α → Bool}
    (h : ∀ x, test x = true → weaker x = true) (xs : List α) :
    (xs.takeWhile test).length = (xs.takeWhile weaker).length ↔
      ∀ x ∈ xs.takeWhile weaker, test x = true := by
  induction xs with
  | nil => simp
  | cons x xs ih =>
    by_cases hx : test x = true
    · rw [List.takeWhile_cons_of_pos hx, List.takeWhile_cons_of_pos (h x hx), List.forall_mem_cons,
        ← ih, List.length_cons, List.length_cons, Nat.succ_inj, and_iff_right hx]
    · by_cases hweaker : weaker x = true
      · rw [List.takeWhile_cons_of_neg hx, List.takeWhile_cons_of_pos hweaker]
        simp [hx]
      · rw [List.takeWhile_cons_of_neg hx, List.takeWhile_cons_of_neg hweaker]
        simp

end Keyset
