import Keyset.Proofs.MergeSort
import Keyset.Sorting.Pivot

/-!
# Sorting by pivots

A pivot is some element of the list, whichever elements are compared to find it. The parts of the
list at a pivot are sorted on their own, and none of the first part is above the second one.
-/
namespace Keyset.Sorting

variable {α β : Type} {m : Type → Type} [LinearOrder β] [Monad m] {rank : α → β}
  {less : α → α → m Bool} {xs : List α}

/-! ## Choosing a pivot -/

section

variable [LawfulMonad m] {test : Nat → Nat → m Bool}

theorem exists_middle (h : ∀ i j, ∃ answer, test i j = pure answer) (a b c : Nat) :
    ∃ position, middle test a b c = pure position ∧
      (position = a ∨ position = b ∨ position = c) := by
  obtain ⟨ab, hab⟩ := h a b
  obtain ⟨ac, hac⟩ := h a c
  obtain ⟨bc, hbc⟩ := h b c
  simp only [middle, hab, hac, hbc, pure_bind]
  split
  · exact ⟨a, rfl, .inl rfl⟩
  · split
    · exact ⟨b, rfl, .inr (.inl rfl)⟩
    · exact ⟨c, rfl, .inr (.inr rfl)⟩

theorem exists_pivotFrom (h : ∀ i j, ∃ answer, test i j = pure answer) {count : Nat}
    (hcount : 0 < count) (first : Nat) :
    ∃ position, pivotFrom test count first = pure position ∧ first ≤ position ∧
      position < first + count := by
  induction count using Nat.strong_induction_on generalizing first with
  | _ count ih =>
    rw [pivotFrom]
    split
    · exact ⟨first, rfl, le_rfl, by omega⟩
    · next hmany =>
      have hless : count / 8 < count := by omega
      have hpos : 0 < count / 8 := by omega
      obtain ⟨a, ha, hlow, hhigh⟩ := ih _ hless hpos first
      obtain ⟨b, hb, hlow', hhigh'⟩ := ih _ hless hpos (first + count / 8 * 4)
      obtain ⟨c, hc, hlow'', hhigh''⟩ := ih _ hless hpos (first + count / 8 * 7)
      -- The three are within their own eighths, and so among all the elements.
      obtain ⟨position, hposition, hmiddle⟩ := exists_middle h a b c
      refine ⟨position, ?_, by omega, by omega⟩
      simp only [ha, hb, hc, pure_bind, hposition]

end

theorem exists_lessAt (h : ComparesBy less rank xs) (i j : Nat) :
    ∃ answer, lessAt less xs.toArray i j = pure answer := by
  unfold lessAt
  split
  · next a b ha hb =>
    rw [List.getElem?_toArray] at ha hb
    exact ⟨_, h a (List.mem_of_getElem? ha) b (List.mem_of_getElem? hb)⟩
  · exact ⟨false, rfl⟩

theorem exists_pivot [LawfulMonad m] (h : ComparesBy less rank xs) (hne : 0 < xs.length) :
    ∃ position before pivot after,
      pivotFrom (lessAt less xs.toArray) xs.length 0 = pure position ∧
      xs.take position = before ∧ xs.drop position = pivot :: after ∧
      xs = before ++ pivot :: after := by
  obtain ⟨position, hrun, _, hlt⟩ := exists_pivotFrom (exists_lessAt h) hne 0
  rw [Nat.zero_add] at hlt
  have hdrop := List.drop_eq_getElem_cons hlt
  exact ⟨position, _, _, _, hrun, rfl, hdrop, by rw [← hdrop, List.take_append_drop]⟩

/-! ## Parting a list -/

section

variable [LawfulMonad m] {test : α → m Bool} {p : α → Bool}

theorem partitionM_eq (h : ∀ x ∈ xs, test x = pure (p x)) :
    partitionM test xs = pure (xs.filter p, xs.filter fun x => !p x) := by
  induction xs with
  | nil => rfl
  | cons x xs ih =>
    obtain ⟨hx, hxs⟩ := List.forall_mem_cons.1 h
    simp only [partitionM, hx, ih hxs, pure_bind, List.filter_cons]
    cases p x <;> rfl

theorem partAround_eq {before after : List α} {pivot : α} {pivotPasses : Bool}
    (h : ∀ x ∈ before ++ pivot :: after, test x = pure (p x)) (hpivot : p pivot = pivotPasses) :
    partAround test pivotPasses before pivot after =
      pure ((before ++ pivot :: after).filter p,
        (before ++ pivot :: after).filter fun x => !p x) := by
  rw [List.forall_mem_append, List.forall_mem_cons] at h
  obtain ⟨hbefore, _, hafter⟩ := h
  simp only [partAround, partitionM_eq hbefore, partitionM_eq hafter, pure_bind,
    List.filter_append, List.filter_cons, hpivot]
  cases pivotPasses <;> rfl

end

/-- Sorted parts of a list, one above the other, are the list sorted. -/
theorem sorts_parts {p : α → Bool} {low high : List α} (hlow : low.Perm (xs.filter p))
    (hhigh : high.Perm (xs.filter fun x => !p x)) (hpair : low.Pairwise (rank · ≤ rank ·))
    (hpair' : high.Pairwise (rank · ≤ rank ·))
    (hcut : ∀ a ∈ xs, p a = true → ∀ b ∈ xs, p b = false → rank a ≤ rank b) :
    Sorts rank (pure (low ++ high) : m (List α)) xs := by
  refine ⟨low ++ high, rfl, (hlow.append hhigh).trans (List.filter_append_perm p xs), ?_⟩
  refine List.pairwise_append.2 ⟨hpair, hpair', fun a ha b hb => ?_⟩
  have ha := List.mem_filter.1 (hlow.mem_iff.1 ha)
  have hb := List.mem_filter.1 (hhigh.mem_iff.1 hb)
  exact hcut a ha.1 ha.2 b hb.1 (Bool.not_eq_true' _ ▸ hb.2)

/-! ## Sorting -/

variable [LawfulMonad m]

/-- A list is sorted by its parts at a pivot. If nothing is below the pivot, all that is not above
it is equal to it. -/
theorem sortParts_sorts (sort : Option α → List α → m (List α)) {bound : Option α}
    {before after low high : List α} {pivot : α}
    (h : ComparesBy less rank (before ++ pivot :: after))
    (hlow : low = (before ++ pivot :: after).filter fun x => decide (rank x < rank pivot))
    (hhigh : high = (before ++ pivot :: after).filter fun x => !decide (rank x < rank pivot))
    (hnone : ∀ ys, ys ⊆ before ++ pivot :: after → Sorts rank (sort none ys) ys)
    (hpivot : ∀ ys, ys ⊆ before ++ pivot :: after → (∀ y ∈ ys, rank pivot ≤ rank y) →
      Sorts rank (sort (some pivot) ys) ys)
    (hbound : ∀ ys, ys ⊆ before ++ pivot :: after → Sorts rank (sort bound ys) ys) :
    Sorts rank
      (if low.isEmpty then do
        let (equal, high) ←
          partAround (fun x => do return !(← less pivot x)) true before pivot after
        return equal ++ (← sort none high)
      else do
        let high ← sort (some pivot) high
        let low ← sort bound low
        return low ++ high)
      (before ++ pivot :: after) := by
  have hmem : pivot ∈ before ++ pivot :: after := by simp
  have hequal : partAround (fun x => do return !(← less pivot x)) true before pivot after =
      pure ((before ++ pivot :: after).filter fun x => !decide (rank pivot < rank x),
        (before ++ pivot :: after).filter fun x => !!decide (rank pivot < rank x)) :=
    partAround_eq (fun x hx => by rw [h pivot hmem x hx, pure_bind]) (by simp)
  subst hlow hhigh
  split
  · next hempty =>
    rw [List.isEmpty_iff, List.filter_eq_nil_iff] at hempty
    have hleast : ∀ x ∈ before ++ pivot :: after, rank pivot ≤ rank x :=
      fun x hx => by simpa using hempty x hx
    simp only [hequal, pure_bind]
    refine (hnone _ (List.filter_subset_self _)).bind fun high hhigh hpair => ?_
    refine sorts_parts (.refl _) hhigh ?_ hpair ?_
    · refine List.pairwise_of_forall_mem_list fun a ha b hb => ?_
      have ha := List.mem_filter.1 ha
      have hb := List.mem_filter.1 hb
      simp only [Bool.not_eq_true', decide_eq_false_iff_not, not_lt] at ha
      exact ha.2.trans (hleast b hb.1)
    · intro a _ ha b _ hb
      simp only [Bool.not_eq_true', decide_eq_false_iff_not, not_lt] at ha
      simp only [Bool.not_eq_false', decide_eq_true_eq] at hb
      exact ha.trans hb.le
  · refine (hpivot _ (List.filter_subset_self _) ?_).bind fun high hhigh hpair => ?_
    · intro y hy
      simpa using (List.mem_filter.1 hy).2
    refine (hbound _ (List.filter_subset_self _)).bind fun low hlow hpair' => ?_
    refine sorts_parts hlow hhigh hpair' hpair fun a _ ha b _ hb => ?_
    simp only [decide_eq_true_eq] at ha
    simp only [decide_eq_false_iff_not, not_lt] at hb
    exact ha.le.trans hb

/-- Sorting by pivots, where a list that is left to another sort is sorted by it. -/
theorem sortByPivots_sorts [MonadExceptOf Disorder m] {other : List α → m (List α)} {all : List α}
    (h : ComparesBy less rank all) (hother : ∀ ys, ys ⊆ all → Sorts rank (other ys) ys)
    (limit : Nat) (bound : Option α) (hxs : xs ⊆ all)
    (hbound : ∀ b ∈ bound, b ∈ all ∧ ∀ x ∈ xs, rank b ≤ rank x) :
    Sorts rank (sortByPivots less other limit bound xs) xs := by
  induction limit generalizing bound xs with
  | zero =>
    rw [sortByPivots]
    split
    · exact sortShort_sorts (h.mono hxs)
    · exact hother xs hxs
  | succ limit ih =>
    rw [sortByPivots]
    split
    · exact sortShort_sorts (h.mono hxs)
    next hlong =>
    have hcmp := h.mono hxs
    obtain ⟨position, before, pivot, after, hrun, htake, hdrop, rfl⟩ :=
      exists_pivot hcmp (by omega)
    have hmem : pivot ∈ before ++ pivot :: after := by simp
    have hnone (ys : List α) (hys : ys ⊆ before ++ pivot :: after) :=
      ih none (List.Subset.trans hys hxs) (by simp)
    have hpivot (ys : List α) (hys : ys ⊆ before ++ pivot :: after)
        (hle : ∀ y ∈ ys, rank pivot ≤ rank y) :=
      ih (some pivot) (List.Subset.trans hys hxs) (by simpa using ⟨hxs hmem, hle⟩)
    have hsame (ys : List α) (hys : ys ⊆ before ++ pivot :: after) :=
      ih bound (List.Subset.trans hys hxs) fun b hb =>
        ⟨(hbound b hb).1, fun y hy => (hbound b hb).2 y (hys hy)⟩
    have hlow : partAround (fun x => less x pivot) false before pivot after =
        pure ((before ++ pivot :: after).filter fun x => decide (rank x < rank pivot),
          (before ++ pivot :: after).filter fun x => !decide (rank x < rank pivot)) :=
      partAround_eq (fun x hx => hcmp x hx pivot hmem) (by simp)
    simp only [hrun, pure_bind, htake, hdrop]
    cases bound with
    | none =>
      simp only [hlow, pure_bind, if_true]
      exact sortParts_sorts _ hcmp rfl rfl hnone hpivot hsame
    | some bound =>
      obtain ⟨hmem', hle⟩ := hbound bound rfl
      simp only [h bound hmem' pivot (hxs hmem), hlow, pure_bind]
      split
      · exact sortParts_sorts _ hcmp rfl rfl hnone hpivot hsame
      · next hnot =>
        -- The bound is below nothing in the list, so no element is below the pivot either.
        have hleast : ∀ x ∈ before ++ pivot :: after, rank pivot ≤ rank x := fun x hx =>
          (not_lt.1 (by simpa using hnot)).trans (hle x hx)
        refine sortParts_sorts _ hcmp ?_ ?_ hnone hpivot hsame
        · exact (List.filter_eq_nil_iff.2 fun x hx => by simpa using hleast x hx).symm
        · exact (List.filter_eq_self.2 fun x hx => by simpa using hleast x hx).symm

end Keyset.Sorting
