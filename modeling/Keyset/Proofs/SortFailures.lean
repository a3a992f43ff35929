import Keyset.Sorting
import Mathlib

/-!
# Sorting with a test that fails

A sort knows its elements only by the answers of its test. If a test gives the answers of another
one wherever it records no failure, a sort with it goes the way of a sort with the other test until
it records one. So if it has recorded nothing in the end, its result is that of the other sort.
-/
namespace Keyset.Sorting

variable {α γ δ ε : Type} {allowed : ε → Prop}

/-- How a computation ends that starts with a record, beside another one that keeps no record. As
long as nothing is recorded both end alike. What is recorded first stays, and from then on the two
have nothing to do with each other. -/
inductive EndsBeside (allowed : ε → Prop) (good : γ → Prop) (failure : Option ε) :
    Except Disorder (γ × Option ε) → Except Disorder γ → Prop
  | same {c : γ} (h : good c) : EndsBeside allowed good failure (.ok (c, failure)) (.ok c)
  | disorder (e : Disorder) : EndsBeside allowed good failure (.error e) (.error e)
  | recorded {c : γ} {e : ε} (h : good c) (he : allowed e) (hkept : failure.or (some e) = some e)
      (other : Except Disorder γ) : EndsBeside allowed good failure (.ok (c, some e)) other
  | lost (d : Disorder) {e : ε} (he : allowed e) (other : Except Disorder γ) :
      EndsBeside allowed good failure (.error d) other

/-- The first computation goes the way of the second one, with good results, until it records a
failure that it may have. -/
def Follows (allowed : ε → Prop) (good : γ → Prop) (x : Recording ε γ) (y : Except Disorder γ) :
    Prop :=
  ∀ failure : Option ε, (∀ e ∈ failure, allowed e) →
    EndsBeside allowed good failure (x.run failure) y

namespace Follows

variable {good : γ → Prop} {good' : δ → Prop} {x : Recording ε γ} {y : Except Disorder γ}

theorem same {c : γ} (h : good c) : Follows allowed good (pure c) (pure c) :=
  fun _ _ => .same h

theorem throw : Follows allowed good (throw Disorder.mk) (throw Disorder.mk) :=
  fun _ _ => .disorder _

theorem bind {f : γ → Recording ε δ} {g : γ → Except Disorder δ} (h : Follows allowed good x y)
    (hnext : ∀ c, good c → Follows allowed good' (f c) (g c)) :
    Follows allowed good' (x >>= f) (y >>= g) := by
  intro failure hfailure
  rw [StateT.run_bind]
  have hends := h failure hfailure
  generalize x.run failure = result at hends
  cases hends with
  | same hc => exact hnext _ hc failure hfailure
  | disorder e => exact .disorder e
  | lost d he => exact .lost d he _
  | @recorded c e hc he hkept =>
    -- The rest starts with the failure, and ends with it or breaks off.
    have hrest := hnext c hc (some e) (by simpa using he)
    change EndsBeside allowed good' failure ((f c).run (some e)) _
    generalize (f c).run (some e) = result, g c = other at hrest
    cases hrest with
    | same hd => exact .recorded hd he hkept _
    | disorder d => exact .lost d he _
    | lost d he => exact .lost d he _
    | recorded hd he' hkept' =>
      obtain rfl := Option.some.inj hkept'
      exact .recorded hd he hkept _

theorem eq_of_ok {c : γ} (h : Follows allowed good x y) (hrun : x.run none = .ok (c, none)) :
    y = .ok c := by
  have hends := h none (by simp)
  rw [hrun] at hends
  cases hends
  rfl

theorem allowed_of_ok {c : γ} {e : ε} (h : Follows allowed good x y)
    (hrun : x.run none = .ok (c, some e)) : allowed e := by
  have hends := h none (by simp)
  rw [hrun] at hends
  cases hends
  assumption

theorem of_error {d : Disorder} (h : Follows allowed good x y) (hrun : x.run none = .error d) :
    y = .error d ∨ ∃ e, allowed e := by
  have hends := h none (by simp)
  rw [hrun] at hends
  cases hends with
  | disorder => exact .inl rfl
  | lost _ he => exact .inr ⟨_, he⟩

end Follows

/-- A computation comes to an end, whatever is recorded before it. -/
def Completes (x : Recording ε γ) : Prop :=
  ∀ failure : Option ε, ∃ result, x.run failure = .ok result

namespace Completes

theorem pure (c : γ) : Completes (pure c : Recording ε γ) := fun failure => ⟨(c, failure), rfl⟩

theorem bind {x : Recording ε γ} {f : γ → Recording ε δ} (h : Completes x)
    (hnext : ∀ c, Completes (f c)) : Completes (x >>= f) := by
  intro failure
  obtain ⟨⟨c, failure'⟩, hrun⟩ := h failure
  obtain ⟨result, hresult⟩ := hnext c failure'
  exact ⟨result, by rw [StateT.run_bind, hrun]; exact hresult⟩

end Completes

/-- Between elements of a list, a test gives the answers of another one until it records a
failure. -/
def FollowsOn (allowed : ε → Prop) (less : α → α → Recording ε Bool)
    (less' : α → α → Except Disorder Bool) (all : List α) : Prop :=
  ∀ a ∈ all, ∀ b ∈ all, Follows allowed (fun _ => True) (less a b) (less' a b)

variable {less : α → α → Recording ε Bool} {less' : α → α → Except Disorder Bool}
  {all xs left right : List α} {a : α}

/-- Insertion does not care whether the answers belong to an order. -/
theorem insertion_completes (h : ∀ a b, Completes (less a b)) (xs : List α) :
    Completes (insertion less xs) := by
  have hinsert (a : α) (xs : List α) : Completes (insertFromEnd less a xs) := by
    induction xs with
    | nil => exact .pure _
    | cons b rest ih =>
      refine (h a b).bind fun isLess => ?_
      cases isLess with
      | true => exact ih.bind fun ys => .pure _
      | false => exact .pure _
  have hall (sorted : List α) :
      Completes (xs.foldlM (fun backwards a => insertFromEnd less a backwards) sorted) := by
    induction xs generalizing sorted with
    | nil => exact .pure _
    | cons a xs ih =>
      rw [List.foldlM_cons]
      exact (hinsert a sorted).bind fun ys => ih ys
  exact (hall _).bind fun ys => .pure _

theorem FollowsOn.flip (h : FollowsOn allowed less less' all) :
    FollowsOn allowed (fun a b => less b a) (fun a b => less' b a) all :=
  fun a ha b hb => h b hb a ha

section

variable (h : FollowsOn allowed less less' all)

include h

/-! ## Insertion -/

theorem insertFromEnd_follows (ha : a ∈ all) (hxs : xs ⊆ all) :
    Follows allowed (· ⊆ all) (insertFromEnd less a xs) (insertFromEnd less' a xs) := by
  induction xs with
  | nil => exact .same (by simpa using ha)
  | cons b rest ih =>
    obtain ⟨hb, hrest⟩ := List.cons_subset.1 hxs
    refine (h a ha b hb).bind fun isLess _ => ?_
    cases isLess with
    | true => exact (ih hrest).bind fun ys hys => .same (List.cons_subset.2 ⟨hb, hys⟩)
    | false => exact .same (List.cons_subset.2 ⟨ha, hxs⟩)

theorem foldlM_follows (hleft : left ⊆ all) (hxs : xs ⊆ all) :
    Follows allowed (· ⊆ all) (xs.foldlM (fun backwards a => insertFromEnd less a backwards) left)
      (xs.foldlM (fun backwards a => insertFromEnd less' a backwards) left) := by
  induction xs generalizing left with
  | nil => exact .same hleft
  | cons a xs ih =>
    obtain ⟨ha, hxs⟩ := List.cons_subset.1 hxs
    rw [List.foldlM_cons, List.foldlM_cons]
    exact (insertFromEnd_follows h ha hleft).bind fun ys hys => ih hys hxs

theorem insertAll_follows (hleft : left ⊆ all) (hxs : xs ⊆ all) :
    Follows allowed (· ⊆ all) (insertAll less left xs) (insertAll less' left xs) := by
  have hback : left.reverse ⊆ all := by simpa using hleft
  exact (foldlM_follows h hback hxs).bind fun ys hys => .same (by simpa using hys)

theorem insertion_follows (hxs : xs ⊆ all) :
    Follows allowed (· ⊆ all) (insertion less xs) (insertion less' xs) :=
  insertAll_follows h (List.nil_subset _) hxs

/-! ## Merging -/

theorem takeMerged_follows (count : Nat) (hleft : left ⊆ all) (hright : right ⊆ all) :
    Follows allowed (fun found => found.1 ⊆ all ∧ found.2.1 ⊆ all ∧ found.2.2 ⊆ all)
      (takeMerged less count left right) (takeMerged less' count left right) := by
  have hnil := List.nil_subset all
  induction count generalizing left right with
  | zero =>
    rw [takeMerged, takeMerged]
    exact .same ⟨hnil, hleft, hright⟩
  | succ count ih =>
    match left, right with
    | [], right =>
      simp only [takeMerged]
      exact .same ⟨List.Subset.trans (List.take_subset _ _) hright, hnil,
        List.Subset.trans (List.drop_subset _ _) hright⟩
    | a :: left, [] =>
      simp only [takeMerged]
      exact .same ⟨List.Subset.trans (List.take_subset _ _) hleft,
        List.Subset.trans (List.drop_subset _ _) hleft, hnil⟩
    | a :: left, b :: right =>
      obtain ⟨ha, hleft'⟩ := List.cons_subset.1 hleft
      obtain ⟨hb, hright'⟩ := List.cons_subset.1 hright
      simp only [takeMerged]
      refine (h b hb a ha).bind fun isLess _ => ?_
      cases isLess with
      | true =>
        refine (ih hleft hright').bind fun found hfound => ?_
        exact .same ⟨List.cons_subset.2 ⟨hb, hfound.1⟩, hfound.2⟩
      | false =>
        refine (ih hleft' hright).bind fun found hfound => ?_
        exact .same ⟨List.cons_subset.2 ⟨ha, hfound.1⟩, hfound.2⟩

theorem takeMergedLast_follows (count : Nat) (hright : right ⊆ all) (hleft : left ⊆ all) :
    Follows allowed (fun found => found.1 ⊆ all ∧ found.2.1 ⊆ all ∧ found.2.2 ⊆ all)
      (takeMergedLast less count right left) (takeMergedLast less' count right left) :=
  takeMerged_follows h.flip count hright hleft

theorem merge_follows (hleft : left ⊆ all) (hright : right ⊆ all) :
    Follows allowed (· ⊆ all) (merge less left right) (merge less' left right) := by
  unfold merge
  split
  · exact (takeMerged_follows h _ hleft hright).bind fun found hfound => .same hfound.1
  · refine (takeMergedLast_follows h _ (List.reverse_subset.2 hright)
      (List.reverse_subset.2 hleft)).bind fun found hfound => .same ?_
    exact List.reverse_subset.2 hfound.1

/-- What is taken and what is left of two lists is of the list that they are from. -/
structure Ends.Of (all : List α) (ends : Ends α) : Prop where
  front : ends.front ⊆ all
  back : ends.back ⊆ all
  left : ends.left ⊆ all
  right : ends.right ⊆ all

theorem takeEnds_follows {leftBack rightBack : List α} (count : Nat) (hleft : left ⊆ all)
    (hright : right ⊆ all) (hleft' : leftBack ⊆ all) (hright' : rightBack ⊆ all) :
    Follows allowed (Ends.Of all) (takeEnds less count left right leftBack rightBack)
      (takeEnds less' count left right leftBack rightBack) := by
  have hnil := List.nil_subset all
  induction count generalizing left right leftBack rightBack with
  | zero => exact .same ⟨hnil, hnil, hleft, hright⟩
  | succ count ih =>
    refine (takeMerged_follows h 1 hleft hright).bind fun first hfirst => ?_
    refine (takeMergedLast_follows h 1 hright' hleft').bind fun last hlast => ?_
    refine (ih hfirst.2.1 hfirst.2.2 hlast.2.2 hlast.2.1).bind fun ends hends => .same ?_
    exact ⟨List.append_subset.2 ⟨hfirst.1, hends.front⟩,
      List.append_subset.2 ⟨hlast.1, hends.back⟩, hends.left, hends.right⟩

theorem mergeHalves_follows (hleft : left ⊆ all) (hright : right ⊆ all) :
    Follows allowed (· ⊆ all) (mergeHalves less left right) (mergeHalves less' left right) := by
  refine (takeEnds_follows h _ hleft hright (List.reverse_subset.2 hleft)
    (List.reverse_subset.2 hright)).bind fun ends hends => ?_
  have hmeet (meets : Prop) [Decidable meets] (middle : List α) (hmiddle : middle ⊆ all) :
      Follows allowed (· ⊆ all)
        (if meets then pure (ends.front ++ middle ++ ends.back.reverse) else throw Disorder.mk)
        (if meets then pure (ends.front ++ middle ++ ends.back.reverse) else throw Disorder.mk) := by
    split
    · exact .same (List.append_subset.2 ⟨List.append_subset.2 ⟨hends.front, hmiddle⟩,
        List.reverse_subset.2 hends.back⟩)
    · exact .throw
  refine hmeet _ _ (List.Subset.trans (List.take_subset _ _) ?_)
  split
  · exact hends.left
  · exact hends.right

/-! ## Short lists -/

theorem sortInner_follows {least x y greatest : α} (hxs : [least, x, y, greatest] ⊆ all) :
    Follows allowed (· ⊆ all)
      (less y x >>= fun isLess =>
        if isLess then pure [least, y, x, greatest] else pure [least, x, y, greatest])
      (less' y x >>= fun isLess =>
        if isLess then pure [least, y, x, greatest] else pure [least, x, y, greatest]) := by
  refine (h y (hxs (by simp)) x (hxs (by simp))).bind fun isLess _ => ?_
  cases isLess with
  | true => exact .same (List.Subset.trans ((List.Perm.swap x y _).cons least).subset hxs)
  | false => exact .same hxs

theorem sortFour_follows {w x y z : α} (hxs : [w, x, y, z] ⊆ all) :
    Follows allowed (· ⊆ all) (sortFour less w x y z) (sortFour less' w x y z) := by
  obtain ⟨hw, hx, hy, hz⟩ : w ∈ all ∧ x ∈ all ∧ y ∈ all ∧ z ∈ all := by simpa using hxs
  unfold sortFour
  refine (h x hx w hw).bind fun isLess _ => ?_
  obtain ⟨a, b, hab, ha, hb⟩ : ∃ a b, (if isLess then (x, w) else (w, x)) = (a, b) ∧
      a ∈ all ∧ b ∈ all := by
    cases isLess with
    | true => exact ⟨x, w, rfl, hx, hw⟩
    | false => exact ⟨w, x, rfl, hw, hx⟩
  simp only [hab]
  refine (h z hz y hy).bind fun isLess' _ => ?_
  obtain ⟨c, d, hcd, hc, hd⟩ : ∃ c d, (if isLess' then (z, y) else (y, z)) = (c, d) ∧
      c ∈ all ∧ d ∈ all := by
    cases isLess' with
    | true => exact ⟨z, y, rfl, hz, hy⟩
    | false => exact ⟨y, z, rfl, hy, hz⟩
  simp only [hcd]
  refine (h c hc a ha).bind fun isLess _ => ?_
  refine (h d hd b hb).bind fun isLess' _ => ?_
  cases isLess <;> cases isLess' <;> exact sortInner_follows h (by simp [ha, hb, hc, hd])

theorem sortFirst_follows (byFour : Bool) (hxs : xs ⊆ all) :
    Follows allowed (fun found => found.1 ⊆ all ∧ found.2 ⊆ all) (sortFirst less byFour xs)
      (sortFirst less' byFour xs) := by
  unfold sortFirst
  split
  · next w x y z rest =>
    have hsub := List.append_subset.1 (show [w, x, y, z] ++ rest ⊆ all from hxs)
    exact (sortFour_follows h hsub.1).bind fun four hfour => .same ⟨hfour, hsub.2⟩
  · exact .same ⟨List.nil_subset _, hxs⟩

theorem sortShort_follows (hxs : xs ⊆ all) :
    Follows allowed (· ⊆ all) (sortShort less xs) (sortShort less' xs) := by
  unfold sortShort
  split
  · exact .same hxs
  · have htake := List.Subset.trans (List.take_subset (xs.length / 2) xs) hxs
    have hdrop := List.Subset.trans (List.drop_subset (xs.length / 2) xs) hxs
    refine (sortFirst_follows h _ htake).bind fun left hleft => ?_
    refine (sortFirst_follows h _ hdrop).bind fun right hright => ?_
    refine (insertAll_follows h hleft.1 hleft.2).bind fun left hleft => ?_
    refine (insertAll_follows h hright.1 hright.2).bind fun right hright => ?_
    exact mergeHalves_follows h hleft hright

end

/-! ## Pivots -/

section

variable {less : Nat → Nat → Recording ε Bool} {less' : Nat → Nat → Except Disorder Bool}

theorem middle_follows (h : ∀ i j, Follows allowed (fun _ => True) (less i j) (less' i j))
    (a b c : Nat) :
    Follows allowed (fun _ => True) (middle less a b c) (middle less' a b c) := by
  refine (h a b).bind fun isLess _ => (h a c).bind fun isLess' _ => ?_
  split
  · exact .same trivial
  · refine (h b c).bind fun isLess'' _ => ?_
    split
    · exact .same trivial
    · exact .same trivial

theorem pivotFrom_follows (h : ∀ i j, Follows allowed (fun _ => True) (less i j) (less' i j))
    (count first : Nat) :
    Follows allowed (fun _ => True) (pivotFrom less count first) (pivotFrom less' count first) := by
  induction count using Nat.strong_induction_on generalizing first with
  | _ count ih =>
    rw [pivotFrom, pivotFrom]
    split
    · exact .same trivial
    · have hless : count / 8 < count := by omega
      refine (ih _ hless _).bind fun a _ => (ih _ hless _).bind fun b _ => ?_
      exact (ih _ hless _).bind fun c _ => middle_follows h a b c

end

section

variable {test : α → Recording ε Bool} {test' : α → Except Disorder Bool}

theorem partitionM_follows (h : ∀ x ∈ xs, Follows allowed (fun _ => True) (test x) (test' x)) :
    Follows allowed (fun parts => parts.1 ⊆ xs ∧ parts.2 ⊆ xs) (partitionM test xs)
      (partitionM test' xs) := by
  induction xs with
  | nil => exact .same ⟨List.Subset.refl _, List.Subset.refl _⟩
  | cons x xs ih =>
    obtain ⟨hx, hxs⟩ := List.forall_mem_cons.1 h
    refine hx.bind fun passes _ => (ih hxs).bind fun parts hparts => .same ?_
    have hyes := List.subset_cons_of_subset x hparts.1
    have hno := List.subset_cons_of_subset x hparts.2
    cases passes with
    | true => exact ⟨List.cons_subset_cons x hparts.1, hno⟩
    | false => exact ⟨hyes, List.cons_subset_cons x hparts.2⟩

theorem partAround_follows {before after : List α} {pivot : α} (pivotPasses : Bool)
    (h : ∀ x ∈ before ++ pivot :: after, Follows allowed (fun _ => True) (test x) (test' x))
    (hsub : before ++ pivot :: after ⊆ all) :
    Follows allowed (fun parts => parts.1 ⊆ all ∧ parts.2 ⊆ all)
      (partAround test pivotPasses before pivot after)
      (partAround test' pivotPasses before pivot after) := by
  rw [List.forall_mem_append, List.forall_mem_cons] at h
  rw [List.append_subset, List.cons_subset] at hsub
  obtain ⟨hbefore, hpivot, hafter⟩ := hsub
  refine (partitionM_follows h.1).bind fun parts hparts => ?_
  refine (partitionM_follows h.2.2).bind fun more hmore => ?_
  have hyes := List.Subset.trans hparts.1 hbefore
  have hno := List.Subset.trans hparts.2 hbefore
  have hyes' := List.Subset.trans hmore.1 hafter
  have hno' := List.Subset.trans hmore.2 hafter
  cases pivotPasses with
  | true =>
    exact .same ⟨List.append_subset.2 ⟨hyes, List.cons_subset.2 ⟨hpivot, hyes'⟩⟩,
      List.append_subset.2 ⟨hno, hno'⟩⟩
  | false =>
    exact .same ⟨List.append_subset.2 ⟨hyes, hyes'⟩,
      List.append_subset.2 ⟨hno, List.cons_subset.2 ⟨hpivot, hno'⟩⟩⟩

end

section

variable (h : FollowsOn allowed less less' all)

include h

theorem lessAt_follows (hxs : xs ⊆ all) (i j : Nat) :
    Follows allowed (fun _ => True) (lessAt less xs.toArray i j) (lessAt less' xs.toArray i j) := by
  unfold lessAt
  split
  · next a b ha hb =>
    rw [List.getElem?_toArray] at ha hb
    exact h a (hxs (List.mem_of_getElem? ha)) b (hxs (List.mem_of_getElem? hb))
  · exact .same trivial

/-- What is done with the parts of a list at a pivot. -/
theorem sortParts_follows {sort : Option α → List α → Recording ε (List α)}
    {sort' : Option α → List α → Except Disorder (List α)} {bound : Option α}
    {before after low high : List α} {pivot : α} (hsub : before ++ pivot :: after ⊆ all)
    (hsort : ∀ bound ys, (∀ b ∈ bound, b ∈ all) → ys ⊆ all →
      Follows allowed (· ⊆ all) (sort bound ys) (sort' bound ys))
    (hbound : ∀ b ∈ bound, b ∈ all) (hparts : low ⊆ all ∧ high ⊆ all) :
    Follows allowed (· ⊆ all)
      (if low.isEmpty then do
        let (equal, high) ←
          partAround (fun x => do return !(← less pivot x)) true before pivot after
        return equal ++ (← sort none high)
      else do
        let high ← sort (some pivot) high
        let low ← sort bound low
        return low ++ high)
      (if low.isEmpty then do
        let (equal, high) ←
          partAround (fun x => do return !(← less' pivot x)) true before pivot after
        return equal ++ (← sort' none high)
      else do
        let high ← sort' (some pivot) high
        let low ← sort' bound low
        return low ++ high) := by
  have hpivot : pivot ∈ all := hsub (by simp)
  split
  · refine (partAround_follows true (fun x hx => ?_) hsub).bind fun parts hparts => ?_
    · exact (h pivot hpivot x (hsub hx)).bind fun isLess _ => .same trivial
    · refine (hsort none _ (by simp) hparts.2).bind fun ys hys => ?_
      exact .same (List.append_subset.2 ⟨hparts.1, hys⟩)
  · refine (hsort (some pivot) _ (by simpa using hpivot) hparts.2).bind fun ys hys => ?_
    refine (hsort bound _ hbound hparts.1).bind fun zs hzs => ?_
    exact .same (List.append_subset.2 ⟨hzs, hys⟩)

theorem sortByPivots_follows {other : List α → Recording ε (List α)}
    {other' : List α → Except Disorder (List α)}
    (hother : ∀ ys, ys ⊆ all → Follows allowed (· ⊆ all) (other ys) (other' ys)) (limit : Nat)
    (bound : Option α) (hbound : ∀ b ∈ bound, b ∈ all) (hxs : xs ⊆ all) :
    Follows allowed (· ⊆ all) (sortByPivots less other limit bound xs)
      (sortByPivots less' other' limit bound xs) := by
  induction limit generalizing bound xs with
  | zero =>
    rw [sortByPivots, sortByPivots]
    split
    · exact sortShort_follows h hxs
    · exact hother xs hxs
  | succ limit ih =>
    rw [sortByPivots, sortByPivots]
    split
    · exact sortShort_follows h hxs
    refine (pivotFrom_follows (lessAt_follows h hxs) _ _).bind fun position _ => ?_
    split
    · exact .same hxs
    next pivot after hdrop =>
    have hsub : xs.take position ++ pivot :: after ⊆ all := by
      rwa [← hdrop, List.take_append_drop]
    have hpivot : pivot ∈ all := hsub (by simp)
    have hbelow := partAround_follows false (fun x hx => h x (hsub hx) pivot hpivot) hsub
    have hsort (bound : Option α) (ys : List α) (hbound : ∀ b ∈ bound, b ∈ all) (hys : ys ⊆ all) :=
      ih bound hbound hys
    cases bound with
    | none => exact hbelow.bind fun parts hparts => sortParts_follows h hsub hsort hbound hparts
    | some bound =>
      refine (h bound (hbound bound rfl) pivot hpivot).bind fun isGreater _ => ?_
      cases isGreater with
      | true => exact hbelow.bind fun parts hparts => sortParts_follows h hsub hsort hbound hparts
      | false => exact sortParts_follows h hsub hsort hbound ⟨List.nil_subset _, hxs⟩

end

/-! ## Runs -/

section

variable {sort : List α → Recording ε (List α)} {sort' : List α → Except Disorder (List α)}
  {join : Run α → Run α → Recording ε (Run α)} {join' : Run α → Run α → Except Disorder (Run α)}
  {find : List α → Recording ε (Run α × List α)}
  {find' : List α → Except Disorder (Run α × List α)} {last : Run α} {stack : Stack α}

theorem settle_follows
    (hsort : ∀ ys, ys ⊆ all → Follows allowed (· ⊆ all) (sort ys) (sort' ys)) {run : Run α}
    (hrun : run.items ⊆ all) : Follows allowed (· ⊆ all) (run.settle sort) (run.settle sort') := by
  unfold Run.settle
  split
  · exact .same hrun
  · exact hsort _ hrun

theorem join_follows (h : FollowsOn allowed less less' all)
    (hsort : ∀ ys, ys ⊆ all → Follows allowed (· ⊆ all) (sort ys) (sort' ys)) {left right : Run α}
    (hleft : left.items ⊆ all) (hright : right.items ⊆ all) :
    Follows allowed (·.items ⊆ all) (Run.join less sort left right)
      (Run.join less' sort' left right) := by
  unfold Run.join
  split
  · refine (settle_follows hsort hleft).bind fun first hfirst => ?_
    refine (settle_follows hsort hright).bind fun second hsecond => ?_
    exact (merge_follows h hfirst hsecond).bind fun merged hmerged => .same hmerged
  · exact .same (List.append_subset.2 ⟨hleft, hright⟩)

theorem takeChain_follows {test : α → α → Recording ε Bool}
    {test' : α → α → Except Disorder Bool} {last : α}
    (h : FollowsOn allowed test test' all) (hlast : last ∈ all) (hxs : xs ⊆ all) :
    Follows allowed (fun found => found.1 ⊆ all ∧ found.2 ⊆ all) (takeChain test last xs)
      (takeChain test' last xs) := by
  induction xs generalizing last with
  | nil => exact .same ⟨hxs, hxs⟩
  | cons x xs ih =>
    obtain ⟨hx, hxs'⟩ := List.cons_subset.1 hxs
    refine (h x hx last hlast).bind fun goesOn _ => ?_
    cases goesOn with
    | true =>
      refine (ih hx hxs').bind fun found hfound => .same ⟨?_, hfound.2⟩
      exact List.cons_subset.2 ⟨hx, hfound.1⟩
    | false => exact .same ⟨List.nil_subset _, hxs⟩

theorem takeSorted_follows (h : FollowsOn allowed less less' all) (hxs : xs ⊆ all) :
    Follows allowed (fun found => found.1 ⊆ all ∧ found.2 ⊆ all) (takeSorted less xs)
      (takeSorted less' xs) := by
  match xs with
  | [] => exact .same ⟨hxs, List.nil_subset _⟩
  | [a] => exact .same ⟨hxs, List.nil_subset _⟩
  | a :: b :: xs =>
    obtain ⟨ha, hb, hxs⟩ : a ∈ all ∧ b ∈ all ∧ xs ⊆ all := by simpa using hxs
    refine (h b hb a ha).bind fun falls _ => ?_
    have htest : FollowsOn allowed (fun x last => do return (← less x last) == falls)
        (fun x last => do return (← less' x last) == falls) all :=
      fun x hx y hy => (h x hx y hy).bind fun isLess _ => .same trivial
    refine (takeChain_follows htest hb hxs).bind fun found hfound => .same ⟨?_, hfound.2⟩
    have hrun : a :: b :: found.1 ⊆ all :=
      List.cons_subset.2 ⟨ha, List.cons_subset.2 ⟨hb, hfound.1⟩⟩
    cases falls with
    | true => exact List.Subset.trans (List.reverse_perm _).subset hrun
    | false => exact hrun

theorem takeRun_follows (h : FollowsOn allowed less less' all) (eager : Bool) (good : Nat)
    (hxs : xs ⊆ all) :
    Follows allowed (fun found => found.1.items ⊆ all ∧ found.2 ⊆ all)
      (takeRun less eager good xs) (takeRun less' eager good xs) := by
  have htake (count : Nat) := List.Subset.trans (List.take_subset count xs) hxs
  have hdrop (count : Nat) := List.Subset.trans (List.drop_subset count xs) hxs
  have hrest (found : List α × List α) (hfound : found.1 ⊆ all ∧ found.2 ⊆ all) :
      Follows allowed (fun found : Run α × List α => found.1.items ⊆ all ∧ found.2 ⊆ all)
        (if good ≤ found.1.length then return (⟨found.1, true⟩, found.2)
          else if eager then
            return (⟨← sortShort less (xs.take shortLength), true⟩, xs.drop shortLength)
          else return (⟨xs.take good, false⟩, xs.drop good))
        (if good ≤ found.1.length then return (⟨found.1, true⟩, found.2)
          else if eager then
            return (⟨← sortShort less' (xs.take shortLength), true⟩, xs.drop shortLength)
          else return (⟨xs.take good, false⟩, xs.drop good)) := by
    split
    · exact .same hfound
    · split
      · refine (sortShort_follows h (htake _)).bind fun sorted hsorted => ?_
        exact .same ⟨hsorted, hdrop _⟩
      · exact .same ⟨htake _, hdrop _⟩
  unfold takeRun
  by_cases hlong : good ≤ xs.length
  · simp only [if_pos hlong]
    exact (takeSorted_follows h hxs).bind hrest
  · simp only [if_neg hlong]
    exact hrest ([], xs) ⟨List.nil_subset _, hxs⟩

theorem collapse_follows
    (hjoin : ∀ left right : Run α, left.items ⊆ all → right.items ⊆ all →
      Follows allowed (·.items ⊆ all) (join left right) (join' left right))
    (depth : Nat) (hlast : last.items ⊆ all) (hstack : ∀ entry ∈ stack, entry.1.items ⊆ all) :
    Follows allowed (fun found => found.1.items ⊆ all ∧ ∀ entry ∈ found.2, entry.1.items ⊆ all)
      (collapse join depth last stack) (collapse join' depth last stack) := by
  induction stack generalizing last with
  | nil => exact .same ⟨hlast, hstack⟩
  | cons entry stack ih =>
    obtain ⟨hentry, hstack'⟩ := List.forall_mem_cons.1 hstack
    rw [collapse, collapse]
    split
    · exact (hjoin _ _ hentry hlast).bind fun joined hjoined => ih hjoined hstack'
    · exact .same ⟨hlast, hstack⟩

theorem joinRuns_follows
    (hfind : ∀ ys, ys ⊆ all →
      Follows allowed (fun found => found.1.items ⊆ all ∧ found.2 ⊆ all) (find ys) (find' ys))
    (hjoin : ∀ left right : Run α, left.items ⊆ all → right.items ⊆ all →
      Follows allowed (·.items ⊆ all) (join left right) (join' left right))
    (length fuel place : Nat) (hlast : last.items ⊆ all)
    (hstack : ∀ entry ∈ stack, entry.1.items ⊆ all) (hxs : xs ⊆ all) :
    Follows allowed (·.items ⊆ all) (joinRuns find join length fuel stack last place xs)
      (joinRuns find' join' length fuel stack last place xs) := by
  have hend {last : Run α} {stack : Stack α} (hlast : last.items ⊆ all)
      (hstack : ∀ entry ∈ stack, entry.1.items ⊆ all) :
      Follows allowed (·.items ⊆ all) (do return (← collapse join 0 last stack).1)
        (do return (← collapse join' 0 last stack).1) :=
    (collapse_follows hjoin 0 hlast hstack).bind fun found hfound => .same hfound.1
  induction fuel generalizing xs last stack place with
  | zero => exact hend hlast hstack
  | succ fuel ih =>
    match xs with
    | [] => exact hend hlast hstack
    | x :: xs =>
      refine (hfind _ hxs).bind fun found hfound => ?_
      refine (collapse_follows hjoin _ hlast hstack).bind fun joined hjoined => ?_
      exact ih _ hfound.1 (List.forall_mem_cons.2 hjoined) hfound.2

end

section

variable (h : FollowsOn allowed less less' all)

include h

theorem sortRuns_follows {sort : List α → Recording ε (List α)}
    {sort' : List α → Except Disorder (List α)}
    (hsort : ∀ ys, ys ⊆ all → Follows allowed (· ⊆ all) (sort ys) (sort' ys)) (eager : Bool)
    (hxs : xs ⊆ all) :
    Follows allowed (· ⊆ all) (sortRuns less sort eager xs) (sortRuns less' sort' eager xs) := by
  have hfind (ys : List α) (hys : ys ⊆ all) := takeRun_follows h eager (goodLength xs.length) hys
  have hjoin (left right : Run α) (hleft : left.items ⊆ all) (hright : right.items ⊆ all) :=
    join_follows h hsort hleft hright
  refine (hfind xs hxs).bind fun found hfound => ?_
  refine (joinRuns_follows hfind hjoin _ _ _ hfound.1 (by simp) hfound.2).bind fun run hrun => ?_
  exact settle_follows hsort hrun

theorem sortLoose_follows (hxs : xs ⊆ all) :
    Follows allowed (· ⊆ all) (sortLoose less xs) (sortLoose less' xs) := by
  refine sortByPivots_follows h (fun ys hys => ?_) _ none (by simp) hxs
  exact sortRuns_follows h (fun zs hzs => .same hzs) true hys

/-- A sort goes the way of a sort with the other test, as far as it goes. -/
theorem sort_follows (hxs : xs ⊆ all) :
    Follows allowed (· ⊆ all) (sort less xs) (sort less' xs) := by
  unfold sort
  split
  · exact insertion_follows h hxs
  · exact sortRuns_follows h (fun ys hys => sortLoose_follows h hys) _ hxs

end

end Keyset.Sorting
