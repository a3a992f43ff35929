import Keyset.Proofs.InsertionSort
import Keyset.Sorting.Short

/-!
# Merging sorted lists

After some steps a merge has taken a front of each list, and it has cut both lists at one rank: what
it took from the left list is not above what is left of the right one, and what it took from the
right list is below what is left of the left one. The cuts that a merge can make come one after the
other, so a merge from the front and one from the end meet.
-/
namespace Keyset.Sorting

variable {α β : Type} {m : Type → Type} [LinearOrder β] [Monad m] {rank : α → β}
  {less : α → α → m Bool}

/-- Two sorted lists are cut at one rank. Of elements of one rank, those on the left come first. -/
structure Cut (rank : α → β) (left right : List α) (i j : Nat) : Prop where
  le_left : i ≤ left.length
  le_right : j ≤ right.length
  le : ∀ a ∈ left.take i, ∀ b ∈ right.drop j, rank a ≤ rank b
  lt : ∀ b ∈ right.take j, ∀ a ∈ left.drop i, rank b < rank a

variable {left right : List α} {i j k l : Nat}

theorem cut_zero : Cut rank left right 0 0 where
  le_left := Nat.zero_le _
  le_right := Nat.zero_le _
  le := by simp
  lt := by simp

namespace Cut

theorem cons_left (h : Cut rank left right i j) {a : α} (ha : ∀ b ∈ right, rank a ≤ rank b) :
    Cut rank (a :: left) right (i + 1) j where
  le_left := Nat.succ_le_succ h.le_left
  le_right := h.le_right
  le := by
    rw [List.take_succ_cons, List.forall_mem_cons]
    exact ⟨fun b hb => ha b (List.mem_of_mem_drop hb), h.le⟩
  lt := h.lt

theorem cons_right (h : Cut rank left right i j) {b : α} (hb : ∀ a ∈ left, rank b < rank a) :
    Cut rank left (b :: right) i (j + 1) where
  le_left := h.le_left
  le_right := Nat.succ_le_succ h.le_right
  le := h.le
  lt := by
    rw [List.take_succ_cons, List.forall_mem_cons]
    exact ⟨fun a ha => hb a (List.mem_of_mem_drop ha), h.lt⟩

/-- A cut does not take more from one list and less from the other one than another cut. -/
theorem not_crossing (h : Cut rank left right i j) (h' : Cut rank left right k l) :
    ¬ (i < k ∧ l < j) := by
  rintro ⟨hi, hj⟩
  have hleft : i < left.length := lt_of_lt_of_le hi h'.le_left
  have hright : l < right.length := lt_of_lt_of_le hj h.le_right
  have hle := h'.le left[i] (List.mem_take_iff_getElem.2 ⟨i, by omega, rfl⟩) right[l]
    (List.mem_drop_iff_getElem.2 ⟨0, by omega, by simp⟩)
  have hlt := h.lt right[l] (List.mem_take_iff_getElem.2 ⟨l, by omega, rfl⟩) left[i]
    (List.mem_drop_iff_getElem.2 ⟨0, by omega, by simp⟩)
  exact absurd hle (not_le.2 hlt)

theorem le_of_mem (h : Cut rank left right i j) (hleft : left.Pairwise (rank · ≤ rank ·))
    (hright : right.Pairwise (rank · ≤ rank ·)) {x y : α}
    (hx : x ∈ left.take i ++ right.take j) (hy : y ∈ left.drop i ++ right.drop j) :
    rank x ≤ rank y := by
  rw [← List.take_append_drop i left, List.pairwise_append] at hleft
  rw [← List.take_append_drop j right, List.pairwise_append] at hright
  rcases List.mem_append.1 hx with hx | hx <;> rcases List.mem_append.1 hy with hy | hy
  · exact hleft.2.2 x hx y hy
  · exact h.le x hx y hy
  · exact (h.lt x hx y hy).le
  · exact hright.2.2 x hx y hy

end Cut

/-- What a merge took from the front of two lists: what is before a cut, sorted. -/
structure Merged (rank : α → β) (left right : List α) (i j : Nat) (taken : List α) : Prop where
  cut : Cut rank left right i j
  perm : taken.Perm (left.take i ++ right.take j)
  pairwise : taken.Pairwise (rank · ≤ rank ·)

/-- What a merge took from the end of two lists: what is after a cut, sorted in reverse. -/
structure MergedLast (rank : α → β) (left right : List α) (i j : Nat) (taken : List α) : Prop where
  cut : Cut rank left right i j
  perm : taken.reverse.Perm (left.drop i ++ right.drop j)
  pairwise : taken.reverse.Pairwise (rank · ≤ rank ·)

theorem append_append_perm (as bs cs ds : List α) :
    (as ++ bs ++ (cs ++ ds)).Perm (as ++ cs ++ (bs ++ ds)) := by
  rw [List.append_assoc, List.append_assoc]
  exact (List.perm_append_comm_assoc bs cs ds).append_left as

namespace Merged

variable {taken front back : List α}

theorem zero : Merged rank left right 0 0 [] := ⟨cut_zero, by simp, .nil⟩

theorem forall_mem {p : α → Prop} (h : Merged rank left right i j taken) (hleft : ∀ x ∈ left, p x)
    (hright : ∀ x ∈ right, p x) : ∀ x ∈ taken, p x := by
  intro x hx
  rcases List.mem_append.1 (h.perm.mem_iff.1 hx) with hx | hx
  · exact hleft x (List.mem_of_mem_take hx)
  · exact hright x (List.mem_of_mem_take hx)

theorem cons_left {a : α} (h : Merged rank left right i j taken)
    (hleft : ∀ x ∈ left, rank a ≤ rank x) (hright : ∀ x ∈ right, rank a ≤ rank x) :
    Merged rank (a :: left) right (i + 1) j (a :: taken) where
  cut := h.cut.cons_left hright
  perm := h.perm.cons a
  pairwise := List.pairwise_cons.2 ⟨h.forall_mem hleft hright, h.pairwise⟩

theorem cons_right {b : α} (h : Merged rank left right i j taken)
    (hleft : ∀ x ∈ left, rank b < rank x) (hright : ∀ x ∈ right, rank b ≤ rank x) :
    Merged rank left (b :: right) i (j + 1) (b :: taken) where
  cut := h.cut.cons_right hleft
  perm := (h.perm.cons b).trans List.perm_middle.symm
  pairwise :=
    List.pairwise_cons.2 ⟨h.forall_mem (fun x hx => (hleft x hx).le) hright, h.pairwise⟩

theorem append (h : Merged rank left right i j front)
    (h' : Merged rank (left.drop i) (right.drop j) k l back)
    (hleft : left.Pairwise (rank · ≤ rank ·)) (hright : right.Pairwise (rank · ≤ rank ·)) :
    Merged rank left right (i + k) (j + l) (front ++ back) := by
  have hi := h.cut.le_left
  have hj := h.cut.le_right
  have hk := h'.cut.le_left
  have hl := h'.cut.le_right
  rw [List.length_drop] at hk hl
  refine ⟨⟨by omega, by omega, ?_, ?_⟩, ?_, List.pairwise_append.2 ⟨h.pairwise, h'.pairwise, ?_⟩⟩
  · rw [List.take_add, ← List.drop_drop, List.forall_mem_append]
    exact ⟨fun a ha b hb => h.cut.le a ha b (List.mem_of_mem_drop hb), h'.cut.le⟩
  · rw [List.take_add, ← List.drop_drop, List.forall_mem_append]
    exact ⟨fun b hb a ha => h.cut.lt b hb a (List.mem_of_mem_drop ha), h'.cut.lt⟩
  · rw [List.take_add, List.take_add]
    exact (h.perm.append h'.perm).trans (append_append_perm _ _ _ _)
  · intro x hx y hy
    refine h.cut.le_of_mem hleft hright (h.perm.mem_iff.1 hx) ?_
    exact List.mem_append.2 ((List.mem_append.1 (h'.perm.mem_iff.1 hy)).imp
      List.mem_of_mem_take List.mem_of_mem_take)

/-- A merge of the reversed lists takes from their ends. -/
theorem last (h : Merged (OrderDual.toDual ∘ rank) right.reverse left.reverse j i taken) :
    MergedLast rank left right (left.length - i) (right.length - j) taken := by
  have hle := h.cut.le
  have hlt := h.cut.lt
  have hperm := h.perm
  simp only [List.take_reverse, List.drop_reverse] at hle hlt hperm
  refine ⟨⟨Nat.sub_le _ _, Nat.sub_le _ _, ?_, ?_⟩, ?_, List.pairwise_reverse.2 h.pairwise⟩
  · intro a ha b hb
    exact hle b (List.mem_reverse.2 hb) a (List.mem_reverse.2 ha)
  · intro b hb a ha
    exact hlt a (List.mem_reverse.2 ha) b (List.mem_reverse.2 hb)
  · refine (taken.reverse_perm.trans hperm).trans ?_
    exact ((List.reverse_perm _).append (List.reverse_perm _)).trans List.perm_append_comm

end Merged

theorem ComparesBy.flip {xs : List α} (h : ComparesBy less rank xs) :
    ComparesBy (fun a b => less b a) (OrderDual.toDual ∘ rank) xs :=
  fun a ha b hb => h b hb a ha

/-! ## Cuts that meet -/

theorem middle_eq (hcut : Cut rank left right i j) (hcut' : Cut rank left right k l)
    (hsum : i + j ≤ k + l) (hmore : k + l ≤ i + j + 1) :
    (if i < k then left.drop i else right.drop j).take (k + l - (i + j)) =
      (left.drop i).take (k - i) ++ (right.drop j).take (l - j) := by
  have hcross := hcut.not_crossing hcut'
  have hcross' := hcut'.not_crossing hcut
  by_cases hlt : i < k
  · rw [if_pos hlt, show l - j = 0 by omega, List.take_zero, List.append_nil]
    congr 1
    omega
  · rw [if_neg hlt, show k - i = 0 by omega, List.take_zero, List.nil_append]
    congr 1
    omega

theorem pairwise_take {r : α → α → Prop} {xs : List α} {count : Nat} (h : count ≤ 1) :
    (xs.take count).Pairwise r := by
  have hlength : (xs.take count).length ≤ 1 := (List.length_take_le count xs).trans h
  match xs.take count, hlength with
  | [], _ => exact .nil
  | [a], _ => exact List.pairwise_singleton r a

theorem upTo_perm {front : List α} (hfront : front.Perm (left.take i ++ right.take j))
    (hleft : i ≤ k) (hright : j ≤ l) :
    (front ++ ((left.drop i).take (k - i) ++ (right.drop j).take (l - j))).Perm
      (left.take k ++ right.take l) := by
  refine (hfront.append_right _).trans ((append_append_perm _ _ _ _).trans ?_)
  rw [← List.take_add, ← List.take_add, Nat.add_sub_cancel' hleft, Nat.add_sub_cancel' hright]

theorem sorted_of_ends {front back : List α} (hleft : left.Pairwise (rank · ≤ rank ·))
    (hright : right.Pairwise (rank · ≤ rank ·)) (hfront : Merged rank left right i j front)
    (hback : MergedLast rank left right k l back) (hik : i ≤ k) (hjl : j ≤ l)
    (hmore : k + l ≤ i + j + 1) :
    (front ++ ((left.drop i).take (k - i) ++ (right.drop j).take (l - j)) ++ back.reverse).Perm
        (left ++ right) ∧
      (front ++ ((left.drop i).take (k - i) ++ (right.drop j).take (l - j)) ++
        back.reverse).Pairwise (rank · ≤ rank ·) := by
  have hupTo := upTo_perm hfront.perm hik hjl
  have hone : ((if i < k then left.drop i else right.drop j).take (k + l - (i + j))).Pairwise
      (rank · ≤ rank ·) := pairwise_take (by omega)
  rw [middle_eq hfront.cut hback.cut (by omega) hmore] at hone
  constructor
  · refine (hupTo.append hback.perm).trans ((append_append_perm _ _ _ _).trans ?_)
    rw [List.take_append_drop, List.take_append_drop]
  · refine List.pairwise_append.2
      ⟨List.pairwise_append.2 ⟨hfront.pairwise, hone, ?_⟩, hback.pairwise, ?_⟩
    · intro x hx y hy
      refine hfront.cut.le_of_mem hleft hright (hfront.perm.mem_iff.1 hx) ?_
      exact List.mem_append.2 ((List.mem_append.1 hy).imp List.mem_of_mem_take List.mem_of_mem_take)
    · intro x hx y hy
      exact hback.cut.le_of_mem hleft hright (hupTo.mem_iff.1 hx) (hback.perm.mem_iff.1 hy)

/-! ## Merging -/

variable [LawfulMonad m]

/-- A merge takes the fronts of both lists up to a cut. -/
theorem exists_takeMerged (h : ComparesBy less rank (left ++ right))
    (hleft : left.Pairwise (rank · ≤ rank ·)) (hright : right.Pairwise (rank · ≤ rank ·))
    {count : Nat} (hcount : count ≤ left.length + right.length) :
    ∃ taken i j, takeMerged less count left right = pure (taken, left.drop i, right.drop j) ∧
      Merged rank left right i j taken ∧ i + j = count := by
  induction count generalizing left right with
  | zero => exact ⟨[], 0, 0, by rw [takeMerged]; rfl, .zero, rfl⟩
  | succ count ih =>
    cases left with
    | nil =>
      rw [List.length_nil, Nat.zero_add] at hcount
      refine ⟨right.take (count + 1), 0, count + 1, by simp only [takeMerged, List.drop_nil],
        ⟨⟨le_rfl, hcount, ?_, ?_⟩, by simp, hright.sublist (List.take_sublist _ _)⟩,
        Nat.zero_add _⟩
      · simp
      · simp
    | cons a left =>
      cases right with
      | nil =>
        rw [List.length_nil, Nat.add_zero] at hcount
        refine ⟨(a :: left).take (count + 1), count + 1, 0, by simp only [takeMerged]; rfl,
          ⟨⟨hcount, le_rfl, ?_, ?_⟩, by simp, hleft.sublist (List.take_sublist _ _)⟩, rfl⟩
        · simp
        · simp
      | cons b right =>
        have htest := h b (by simp) a (by simp)
        obtain ⟨ha, hleft'⟩ := List.pairwise_cons.1 hleft
        obtain ⟨hb, hright'⟩ := List.pairwise_cons.1 hright
        simp only [List.length_cons] at hcount
        -- On a tie the left list goes first, which is why the two sides of a cut differ.
        by_cases hlt : rank b < rank a
        · have hbelow : ∀ x ∈ a :: left, rank b < rank x :=
            List.forall_mem_cons.2 ⟨hlt, fun x hx => lt_of_lt_of_le hlt (ha x hx)⟩
          obtain ⟨taken, i, j, hrun, hmerged, hsum⟩ :=
            ih (h.mono ((List.sublist_cons_self b right).append_left _).subset) hleft hright'
              (by simp only [List.length_cons]; omega)
          refine ⟨b :: taken, i, j + 1, ?_, hmerged.cons_right hbelow hb, by omega⟩
          simp only [takeMerged, htest, hlt, hrun, pure_bind, decide_true, if_true,
            List.drop_succ_cons]
        · have hle := not_lt.1 hlt
          have habove : ∀ x ∈ b :: right, rank a ≤ rank x :=
            List.forall_mem_cons.2 ⟨hle, fun x hx => le_trans hle (hb x hx)⟩
          obtain ⟨taken, i, j, hrun, hmerged, hsum⟩ :=
            ih (h.mono (List.subset_cons_self _ _)) hleft' hright
              (by simp only [List.length_cons]; omega)
          refine ⟨a :: taken, i + 1, j, ?_, hmerged.cons_left ha habove, by omega⟩
          simp only [takeMerged, htest, hlt, hrun, pure_bind, decide_false, Bool.false_eq_true,
            if_false, List.drop_succ_cons]

/-- Taking elements in turns comes to the same as taking them from either side on its own. -/
theorem exists_takeEnds {leftBack rightBack : List α} (h : ComparesBy less rank (left ++ right))
    (h' : ComparesBy less rank (rightBack ++ leftBack)) (hleft : left.Pairwise (rank · ≤ rank ·))
    (hright : right.Pairwise (rank · ≤ rank ·)) (hleft' : leftBack.Pairwise (rank · ≥ rank ·))
    (hright' : rightBack.Pairwise (rank · ≥ rank ·)) {count : Nat}
    (hcount : count ≤ left.length + right.length)
    (hcount' : count ≤ rightBack.length + leftBack.length) :
    ∃ front back i j k l, takeEnds less count left right leftBack rightBack =
        pure ⟨front, back, left.drop i, right.drop j, leftBack.drop k, rightBack.drop l⟩ ∧
      Merged rank left right i j front ∧ i + j = count ∧
      Merged (OrderDual.toDual ∘ rank) rightBack leftBack l k back ∧ l + k = count := by
  induction count generalizing left right leftBack rightBack with
  | zero => exact ⟨[], [], 0, 0, 0, 0, by rw [takeEnds]; rfl, .zero, rfl, .zero, rfl⟩
  | succ count ih =>
    obtain ⟨first, i, j, hrun, hfirst, hsum⟩ :=
      exists_takeMerged h hleft hright (show 1 ≤ left.length + right.length by omega)
    obtain ⟨last, l, k, hrun', hlast, hsum'⟩ :=
      exists_takeMerged h'.flip hright' hleft' (show 1 ≤ rightBack.length + leftBack.length by omega)
    have hi := hfirst.cut.le_left
    have hj := hfirst.cut.le_right
    have hk := hlast.cut.le_right
    have hl := hlast.cut.le_left
    obtain ⟨front, back, i', j', k', l', hends, hfront, hsums, hback, hsums'⟩ :=
      ih (h.mono ((List.drop_sublist i left).append (List.drop_sublist j right)).subset)
        (h'.mono ((List.drop_sublist l rightBack).append (List.drop_sublist k leftBack)).subset)
        (hleft.sublist (List.drop_sublist _ _)) (hright.sublist (List.drop_sublist _ _))
        (hleft'.sublist (List.drop_sublist _ _)) (hright'.sublist (List.drop_sublist _ _))
        (by simp only [List.length_drop]; omega) (by simp only [List.length_drop]; omega)
    refine ⟨first ++ front, last ++ back, i + i', j + j', k + k', l + l', ?_,
      hfirst.append hfront hleft hright, by omega, hlast.append hback hright' hleft', by omega⟩
    simp only [takeEnds, takeMergedLast, hrun, hrun', hends, pure_bind, List.drop_drop]

section

variable (h : ComparesBy less rank (left ++ right))
    (hleft : left.Pairwise (rank · ≤ rank ·)) (hright : right.Pairwise (rank · ≤ rank ·))

include h hleft hright

theorem merge_sorts : Sorts rank (merge less left right) (left ++ right) := by
  by_cases hshort : left.length ≤ right.length
  · obtain ⟨taken, i, j, hrun, hmerged, hsum⟩ := exists_takeMerged h hleft hright le_rfl
    have hperm := hmerged.perm
    have hi := hmerged.cut.le_left
    have hj := hmerged.cut.le_right
    rw [List.take_of_length_le (by omega), List.take_of_length_le (by omega)] at hperm
    refine ⟨taken, ?_, hperm, hmerged.pairwise⟩
    simp only [merge, if_pos hshort, hrun, pure_bind]
  · have hback : ComparesBy less rank (right.reverse ++ left.reverse) := by
      rw [← List.reverse_append]
      exact h.perm (List.reverse_perm _).symm
    obtain ⟨taken, j, i, hrun, hmerged, hsum⟩ := exists_takeMerged hback.flip
      (List.pairwise_reverse.2 hright) (List.pairwise_reverse.2 hleft)
      (show left.length + right.length ≤ _ by simp only [List.length_reverse]; omega)
    have hperm := hmerged.last.perm
    have hi := hmerged.cut.le_right
    have hj := hmerged.cut.le_left
    rw [List.length_reverse] at hi hj
    rw [show left.length - i = 0 by omega, show right.length - j = 0 by omega] at hperm
    refine ⟨taken.reverse, ?_, hperm, hmerged.last.pairwise⟩
    simp only [merge, if_neg hshort, takeMergedLast, hrun, pure_bind]

/-- Two halves are merged from both ends, which meet. -/
theorem mergeHalves_sorts [MonadExceptOf Disorder m] :
    Sorts rank (mergeHalves less left right) (left ++ right) := by
  have hback : ComparesBy less rank (right.reverse ++ left.reverse) := by
    rw [← List.reverse_append]
    exact h.perm (List.reverse_perm _).symm
  have hcount := Nat.div_le_self (left.length + right.length) 2
  obtain ⟨front, back, i, j, k, l, hends, hfront, hsum, hlast, hsum'⟩ := exists_takeEnds h hback
    hleft hright (List.pairwise_reverse.2 hleft) (List.pairwise_reverse.2 hright) hcount
    (by simp only [List.length_reverse]; omega)
  have hi := hfront.cut.le_left
  have hj := hfront.cut.le_right
  have hk := hlast.cut.le_right
  have hl := hlast.cut.le_left
  rw [List.length_reverse] at hk hl
  have hcross := hfront.cut.not_crossing hlast.last.cut
  have hcross' := hlast.last.cut.not_crossing hfront.cut
  -- Between the two cuts is one element if there is an odd number of them, and else nothing.
  have hodd : (left.length + right.length) % 2 =
      left.length - k + (right.length - l) - (i + j) := by omega
  have hisLeft : left.length < left.length - i + (left.length - k) ↔ i < left.length - k := by
    omega
  have hmiddle := middle_eq hfront.cut hlast.last.cut (by omega) (by omega)
  obtain ⟨hperm, hpair⟩ := sorted_of_ends hleft hright hfront hlast.last (by omega) (by omega)
    (by omega)
  refine ⟨_, ?_, hperm, hpair⟩
  simp only [mergeHalves, hends, pure_bind, List.length_drop, List.length_reverse, hisLeft, hodd,
    hmiddle]
  rw [if_pos]
  split
  · omega
  · omega

end

/-! ## Short lists -/

/-- Of four elements of which the outer ones are known, the inner ones are put in order. -/
theorem sortInner_sorts {xs : List α} {least x y greatest : α}
    (h : ComparesBy less rank [least, x, y, greatest]) (hperm : [least, x, y, greatest].Perm xs)
    (hx : rank least ≤ rank x) (hy : rank least ≤ rank y) (hx' : rank x ≤ rank greatest)
    (hy' : rank y ≤ rank greatest) :
    Sorts rank (less y x >>= fun falls =>
      if falls then pure [least, y, x, greatest] else pure [least, x, y, greatest]) xs := by
  have htest := h y (by simp) x (by simp)
  by_cases hlt : rank y < rank x
  · refine ⟨[least, y, x, greatest], ?_, ((List.Perm.swap x y _).cons least).trans hperm, ?_⟩
    · simp only [htest, hlt, pure_bind, decide_true, if_true]
    · simp [hx, hy, hx', hy', hlt.le, hx.trans hx']
  · refine ⟨[least, x, y, greatest], ?_, hperm, ?_⟩
    · simp only [htest, hlt, pure_bind, decide_false, Bool.false_eq_true, if_false]
    · simp [hx, hy, hx', hy', not_lt.1 hlt, hx.trans hx']

theorem exists_pair (rank : α → β) (x y : α) :
    ∃ a b, (if rank y < rank x then (y, x) else (x, y)) = (a, b) ∧ [a, b].Perm [x, y] ∧
      rank a ≤ rank b := by
  split
  · next hlt => exact ⟨y, x, rfl, .swap x y [], hlt.le⟩
  · next hle => exact ⟨x, y, rfl, .refl _, not_lt.1 hle⟩

theorem sortFour_sorts {w x y z : α} (h : ComparesBy less rank [w, x, y, z]) :
    Sorts rank (sortFour less w x y z) [w, x, y, z] := by
  have hlow := h x (by simp) w (by simp)
  have hhigh := h z (by simp) y (by simp)
  -- The two pairs are put in order first.
  obtain ⟨a, b, hab, hfirst, hle⟩ := exists_pair rank w x
  obtain ⟨c, d, hcd, hsecond, hle'⟩ := exists_pair rank y z
  have hperm : [a, b, c, d].Perm [w, x, y, z] := hfirst.append hsecond
  have hca := h.perm hperm.symm c (by simp) a (by simp)
  have hdb := h.perm hperm.symm d (by simp) b (by simp)
  have hcmp {xs : List α} (hxs : xs.Perm [a, b, c, d]) : ComparesBy less rank xs :=
    h.perm (hxs.trans hperm).symm
  simp only [sortFour, hlow, hhigh, pure_bind, decide_eq_true_eq, hab, hcd, hca, hdb]
  have hinner : [a, c, b, d].Perm [a, b, c, d] := (List.Perm.swap b c [d]).cons a
  have hlater : [a, c, d, b].Perm [a, b, c, d] :=
    (((List.Perm.swap b d []).cons c).cons a).trans hinner
  by_cases hlt : rank c < rank a <;> by_cases hlt' : rank d < rank b <;>
    simp only [hlt, hlt', decide_true, decide_false]
  · have hxs := (List.Perm.swap a c [d, b]).trans hlater
    exact sortInner_sorts (hcmp hxs) (hxs.trans hperm) hlt.le hle' hle hlt'.le
  · have hxs := (List.Perm.swap a c [b, d]).trans hinner
    exact sortInner_sorts (hcmp hxs) (hxs.trans hperm) hlt.le (hlt.le.trans hle)
      (hle.trans (not_lt.1 hlt')) (not_lt.1 hlt')
  · exact sortInner_sorts (hcmp hlater) (hlater.trans hperm) (not_lt.1 hlt)
      ((not_lt.1 hlt).trans hle') (hle'.trans hlt'.le) hlt'.le
  · exact sortInner_sorts (hcmp (.refl _)) hperm hle (not_lt.1 hlt) (not_lt.1 hlt') hle'

variable {xs : List α}

theorem exists_sortFirst (byFour : Bool) (h : ComparesBy less rank xs) :
    ∃ first rest, sortFirst less byFour xs = pure (first, rest) ∧ (first ++ rest).Perm xs ∧
      first.Pairwise (rank · ≤ rank ·) := by
  unfold sortFirst
  split
  · next w x y z rest =>
    obtain ⟨first, hrun, hperm, hpair⟩ :=
      sortFour_sorts (h.mono (List.subset_append_left [w, x, y, z] rest))
    exact ⟨first, rest, by rw [hrun, pure_bind], hperm.append_right rest, hpair⟩
  · exact ⟨[], _, rfl, .refl _, .nil⟩

theorem sortShort_sorts [MonadExceptOf Disorder m] (h : ComparesBy less rank xs) :
    Sorts rank (sortShort less xs) xs := by
  unfold sortShort
  split
  · next hshort =>
    refine ⟨xs, rfl, .refl _, ?_⟩
    rw [← List.take_of_length_le (Nat.le_of_lt_succ hshort)]
    exact pairwise_take le_rfl
  · have hleft := h.mono (List.take_subset (xs.length / 2) xs)
    have hright := h.mono (List.drop_subset (xs.length / 2) xs)
    obtain ⟨left, leftRest, hrun, hperm, hpair⟩ := exists_sortFirst (decide (8 ≤ xs.length)) hleft
    obtain ⟨right, rightRest, hrun', hperm', hpair'⟩ :=
      exists_sortFirst (decide (8 ≤ xs.length)) hright
    simp only [hrun, hrun', pure_bind]
    refine (insertAll_sorts (hleft.perm hperm.symm) hpair).bind fun left hleft hpair => ?_
    refine (insertAll_sorts (hright.perm hperm'.symm) hpair').bind fun right hright hpair' => ?_
    have hall := (hleft.trans hperm).append (hright.trans hperm')
    rw [List.take_append_drop] at hall
    exact (mergeHalves_sorts (h.perm hall.symm) hpair hpair').of_perm hall

end Keyset.Sorting
