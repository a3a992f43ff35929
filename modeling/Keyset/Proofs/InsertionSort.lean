import Keyset.Sorting.Short
import Mathlib

/-!
# Sorting by insertion sorts

What the test does besides answering is open in general. Here it does nothing else, and it is a
strict comparison of ranks on the elements at hand, so sorting does nothing else either, and its
result is the sorted permutation of the list.
-/
namespace Keyset.Sorting

variable {α β : Type} {m : Type → Type} [LinearOrder β] [Monad m] {rank : α → β}
  {less : α → α → m Bool}

/-- Between elements of a list the test compares ranks. -/
def ComparesBy (less : α → α → m Bool) (rank : α → β) (xs : List α) : Prop :=
  ∀ a ∈ xs, ∀ b ∈ xs, less a b = pure (decide (rank a < rank b))

theorem ComparesBy.perm {xs ys : List α} (h : ComparesBy less rank xs) (hperm : xs.Perm ys) :
    ComparesBy less rank ys := by
  intro a ha b hb
  exact h a (hperm.mem_iff.2 ha) b (hperm.mem_iff.2 hb)

theorem ComparesBy.mono {xs ys : List α} (h : ComparesBy less rank xs) (hsub : ys ⊆ xs) :
    ComparesBy less rank ys :=
  fun a ha b hb => h a (hsub ha) b (hsub hb)

/-- A computation gives a list sorted: a permutation of it whose ranks do not fall. -/
def Sorts (rank : α → β) (result : m (List α)) (xs : List α) : Prop :=
  ∃ ys, result = pure ys ∧ ys.Perm xs ∧ ys.Pairwise (rank · ≤ rank ·)

theorem Sorts.of_perm {result : m (List α)} {xs ys : List α} (h : Sorts rank result xs)
    (hperm : xs.Perm ys) : Sorts rank result ys := by
  obtain ⟨sorted, hrun, hsorted, hpair⟩ := h
  exact ⟨sorted, hrun, hsorted.trans hperm, hpair⟩

theorem Sorts.bind [LawfulMonad m] {result : m (List α)} {next : List α → m (List α)}
    {xs ys : List α} (h : Sorts rank result xs)
    (hnext : ∀ sorted : List α, sorted.Perm xs → sorted.Pairwise (rank · ≤ rank ·) →
      Sorts rank (next sorted) ys) :
    Sorts rank (result >>= next) ys := by
  obtain ⟨sorted, rfl, hperm, hpair⟩ := h
  rw [pure_bind]
  exact hnext sorted hperm hpair

variable [LawfulMonad m]

/-- Insertion from the end keeps a list sorted from its last element to its first. -/
theorem insertFromEnd_sorted {a : α} {xs : List α} (h : ComparesBy less rank (a :: xs))
    (hsorted : xs.Pairwise (rank · ≥ rank ·)) :
    ∃ ys, insertFromEnd less a xs = pure ys ∧ ys.Perm (a :: xs) ∧
      ys.Pairwise (rank · ≥ rank ·) := by
  induction xs with
  | nil => exact ⟨[a], rfl, .refl _, List.pairwise_singleton _ _⟩
  | cons b rest ih =>
    have htest := h a (by simp) b (by simp)
    obtain ⟨hb, hrest⟩ := List.pairwise_cons.1 hsorted
    by_cases hlt : rank a < rank b
    · have hsub : a :: rest ⊆ a :: b :: rest := by simp
      obtain ⟨ys, hys, hperm, hpair⟩ := ih (h.mono hsub) hrest
      refine ⟨b :: ys, ?_, ?_, ?_⟩
      · simp only [insertFromEnd, htest, hlt, hys, pure_bind, decide_true, if_true]
      · exact (hperm.cons b).trans (.swap a b rest)
      · refine List.pairwise_cons.2 ⟨?_, hpair⟩
        intro y hy
        rcases List.mem_cons.1 (hperm.mem_iff.1 hy) with rfl | hy
        · exact le_of_lt hlt
        · exact hb y hy
    · refine ⟨a :: b :: rest, ?_, .refl _, ?_⟩
      · simp only [insertFromEnd, htest, hlt, pure_bind, decide_false, Bool.false_eq_true, if_false]
      · refine List.pairwise_cons.2 ⟨?_, hsorted⟩
        intro y hy
        have hba : rank b ≤ rank a := not_lt.1 hlt
        rcases List.mem_cons.1 hy with rfl | hy
        · exact hba
        · exact le_trans (hb y hy) hba

private theorem foldlM_insertFromEnd {sorted xs : List α}
    (h : ComparesBy less rank (xs ++ sorted)) (hsorted : sorted.Pairwise (rank · ≥ rank ·)) :
    ∃ ys, xs.foldlM (fun backwards a => insertFromEnd less a backwards) sorted = pure ys ∧
      ys.Perm (xs ++ sorted) ∧ ys.Pairwise (rank · ≥ rank ·) := by
  induction xs generalizing sorted with
  | nil => exact ⟨sorted, rfl, .refl _, hsorted⟩
  | cons a xs ih =>
    have hsub : a :: sorted ⊆ a :: xs ++ sorted := by
      intro x hx
      rcases List.mem_cons.1 hx with rfl | hx
      · simp
      · simp [hx]
    obtain ⟨next, hnext, hperm, hpair⟩ := insertFromEnd_sorted (h.mono hsub) hsorted
    have hmove : (xs ++ next).Perm (a :: xs ++ sorted) :=
      (hperm.append_left xs).trans List.perm_middle
    obtain ⟨ys, hys, hysPerm, hysPair⟩ := ih (h.perm hmove.symm) hpair
    refine ⟨ys, ?_, hysPerm.trans hmove, hysPair⟩
    rw [List.foldlM_cons, hnext, pure_bind]
    exact hys

theorem insertAll_sorts {sorted xs : List α} (h : ComparesBy less rank (sorted ++ xs))
    (hsorted : sorted.Pairwise (rank · ≤ rank ·)) :
    Sorts rank (insertAll less sorted xs) (sorted ++ xs) := by
  have hmove : (xs ++ sorted.reverse).Perm (sorted ++ xs) :=
    List.perm_append_comm.trans (sorted.reverse_perm.append_right xs)
  obtain ⟨ys, hys, hperm, hpair⟩ :=
    foldlM_insertFromEnd (h.perm hmove.symm) (List.pairwise_reverse.2 hsorted)
  refine ⟨ys.reverse, ?_, (ys.reverse_perm.trans hperm).trans hmove, List.pairwise_reverse.2 hpair⟩
  rw [insertAll, hys, pure_bind]

/-- Sorting by insertion succeeds with a sorted permutation of the list. -/
theorem insertion_sorts {xs : List α} (h : ComparesBy less rank xs) :
    Sorts rank (insertion less xs) xs :=
  insertAll_sorts h List.Pairwise.nil

end Keyset.Sorting
